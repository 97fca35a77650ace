import RoundRobin.Proofs.Scheduler.Command
import RoundRobin.Proofs.Scheduler.Population

/-!
Waking on the dot. Under the punctual regime a tick wakes only the tasks whose wake tick it is, and
a sleep of no ticks is one of a single tick. Since every tick is looked at, a sleeping task's wake
tick is never behind the clock, and nobody can tell the two regimes apart. Main statement:
`punctual_indistinguishable`.
-/

namespace RoundRobin

namespace Record

/-- The record at tick `now`: ready if it was ready or if this is its wake tick. -/
def wakeOn (r : Record) (now : UInt64) : Record :=
  if r.status = .blocked ∧ r.wake = now then { r with status := .ready } else r

/-- The record `t` of a punctual scheduler at tick `n` stands for `r`, when `last` was the length of
the task's last sleep. A wake tick of `t` is ahead of the clock until the task is woken. -/
structure Echoes (r t : Record) (n : Nat) (last : Option UInt32) : Prop where
  stackPointer : t.stackPointer = r.stackPointer
  entry : t.entry = r.entry
  status : t.status = r.status
  wake : t.wake.toNat = r.wake.toNat + if last = some 0 then 1 else 0
  ahead : r.status = .blocked → n < t.wake.toNat
  past : last = some 0 → r.wake.toNat ≤ n

variable {r t : Record} {n : Nat} {last : Option UInt32}

theorem wakeOn_status_eq_ready_iff (r : Record) (now : UInt64) :
    (r.wakeOn now).status = .ready ↔ r.status = .ready ∨ r.wake = now := by
  rcases r with ⟨sp, wake, status, e⟩
  cases status <;> by_cases h : wake = now <;> simp [wakeOn, h]

theorem wakeOn_fields (r : Record) (now : UInt64) :
    (r.wakeOn now).stackPointer = r.stackPointer ∧ (r.wakeOn now).entry = r.entry ∧
      (r.wakeOn now).wake = r.wake := by
  rw [wakeOn]
  split <;> exact ⟨rfl, rfl, rfl⟩

/-- At the next tick, to be due and to be due on the dot are the same. -/
theorem Echoes.due_iff (h : r.Echoes t n last) {now : UInt64} (hn : now.toNat = n + 1)
    (hb : r.status = .blocked) : r.wake ≤ now ↔ t.wake = now := by
  have ha := h.ahead hb
  have hw := h.wake
  rw [UInt64.le_iff_toNat_le, ← UInt64.toNat_inj, hn]
  by_cases hz : last = some 0
  · have hp := h.past hz
    rw [if_pos hz] at hw
    omega
  · rw [if_neg hz] at hw
    omega

theorem Echoes.woken (h : r.Echoes t n last) {now : UInt64} (hn : now.toNat = n + 1) :
    (r.wakeAt now).Echoes (t.wakeOn now) (n + 1) last := by
  obtain ⟨hsp, he, hw⟩ := wakeOn_fields t now
  refine ⟨?_, ?_, Status.eq_of_ready_iff ?_, ?_, fun hs => ?_, fun hz => ?_⟩
  · rw [hsp, wakeAt_stackPointer, h.stackPointer]
  · rw [he, wakeAt_entry, h.entry]
  · rw [wakeOn_status_eq_ready_iff, wakeAt_status_eq_ready_iff, h.status]
    cases hs : r.status with
    | ready => simp
    | blocked => simp [h.due_iff hn hs]
  · rw [hw, wakeAt_wake, h.wake]
  · obtain ⟨hb, hlt⟩ := (wakeAt_status_eq_blocked_iff r now).mp hs
    have hne : t.wake.toNat ≠ n + 1 := fun hc =>
      UInt64.not_le.mpr hlt ((h.due_iff hn hb).mpr (UInt64.toNat_inj.mp (hc.trans hn.symm)))
    have ha := h.ahead hb
    rw [hw]
    omega
  · rw [wakeAt_wake]
    exact Nat.le_succ_of_le (h.past hz)

theorem Echoes.left (h : r.Echoes t n last) (w : Word) :
    Echoes { r with stackPointer := w } { t with stackPointer := w } n last :=
  ⟨rfl, h.entry, h.status, h.wake, h.ahead, h.past⟩

theorem max_one_of_ne {n : UInt32} (h : n ≠ 0) : max n 1 = n := by
  have hn : n.toNat ≠ 0 := fun hz => h (UInt32.toNat_inj.mp hz)
  have hm : max n 1 = if n ≤ 1 then 1 else n := rfl
  rw [hm]
  split
  · next hle =>
    rw [UInt32.le_iff_toNat_le, UInt32.toNat_one] at hle
    apply UInt32.toNat_inj.mp
    rw [UInt32.toNat_one]
    omega
  · rfl

/-- A sleep begins: of no ticks for the one, of a single tick for the other. -/
theorem Echoes.asleep (h : r.Echoes t n last) {now : UInt64} (hn : now.toNat = n) {m : UInt32}
    (hm : n + UInt32.size < UInt64.size) :
    (r.blockedUntil (now + m.toUInt64)).Echoes (t.blockedUntil (now + (max m 1).toUInt64)) n
      (some m) := by
  have hsum (d : UInt32) : (now + d.toUInt64).toNat = n + d.toNat := by
    have hd : d.toNat < UInt32.size := d.toNat_lt
    rw [toNat_add_ticks (by omega), hn]
  refine ⟨h.stackPointer, h.entry, rfl, ?_, fun _ => ?_, fun hz => ?_⟩
  · rw [blockedUntil, blockedUntil, hsum, hsum]
    by_cases hz : m = 0
    · subst hz
      rfl
    · rw [max_one_of_ne hz, if_neg (by simpa using hz), Nat.add_zero]
  · rw [blockedUntil, hsum]
    by_cases hz : m = 0
    · subst hz
      exact Nat.lt_succ_self n
    · rw [max_one_of_ne hz]
      have : m.toNat ≠ 0 := fun h => hz (UInt32.toNat_inj.mp h)
      omega
  · rw [Option.some.injEq] at hz
    rw [blockedUntil, hsum, hz]
    exact Nat.le_refl n

end Record

namespace Scheduler

/-- Makes every application task ready whose wake tick it is. -/
def wakePunctual (s : Scheduler) : Scheduler :=
  { s with tasks := s.tasks.mapIdx fun slot r =>
      if slot = idleSlot.val then r else r.wakeOn s.ticks }

def tickPunctual : Action Scheduler Unit := do
  let s ← get
  let ticks ← ofExcept (addExact s.ticks 1)
  set { s with ticks }.wakePunctual

/-- The regime under which a task is woken at its wake tick or never, and sleeps for one tick at
least. -/
def punctual : Regime
  | .tick => do tickPunctual; return .done
  | .sleep n => usual (.sleep (max n 1))
  | .select => usual .select
  | .swap w => usual (.swap w)

variable {s t : Scheduler} {n : Nat} {last : Slot → Option UInt32}

def tickedPunctual (s : Scheduler) : Scheduler := { s with ticks := s.ticks + 1 }.wakePunctual

theorem punctual_tick (h : s.ticks.toNat + 1 < UInt64.size) :
    punctual .tick s = .ok .done s.tickedPunctual := by
  have hs : addExact s.ticks 1 = .ok (s.ticks + 1) := addExact_of_lt h
  have ht : tickPunctual s = .ok () s.tickedPunctual := by
    simp only [tickPunctual, Action.get_bind, hs]
    rfl
  exact Action.bind_of_ok ht

@[simp] theorem record_tickedPunctual (s : Scheduler) (j : Slot) :
    s.tickedPunctual.record j =
      if j = idleSlot then s.record j else (s.record j).wakeOn (s.ticks + 1) := by
  simp [record_eq, tickedPunctual, wakePunctual, Fin.ext_iff]

/-- The length of the sleep that the task of slot `j` begins by a command. -/
def sleepBy (s : Scheduler) (j : Slot) : Command → Option UInt32
  | .sleep n => if s.resident = j ∧ j ≠ idleSlot then some n else none
  | _ => none

/-- The length of the last sleep that the task of slot `j` begins in a series of commands. -/
def lastSleep (s : Scheduler) (j : Slot) : List Command → Option UInt32
  | [] => none
  | c :: cs => ((usual.after s c).lastSleep j cs).or (s.sleepBy j c)

/-- The punctual scheduler `t` stands for `s` after `n` ticks, when the tasks' last sleeps were
`last`. -/
structure Echoes (s t : Scheduler) (n : Nat) (last : Slot → Option UInt32) : Prop where
  current : s.current.toNat < 5
  same : t.current = s.current
  now : s.ticks.toNat = n
  ticks : t.ticks = s.ticks
  idle : (s.record idleSlot).status = .ready
  records : ∀ j, (s.record j).Echoes (t.record j) n (last j)

theorem echoes_fresh (app : Application) :
    (fresh app).Echoes (fresh app) 0 fun _ => none := by
  refine ⟨current_fresh app, rfl, rfl, rfl, ?_, fun j => ?_⟩
  · rw [record_fresh]
    rfl
  · rw [record_fresh]
    exact ⟨rfl, rfl, rfl, rfl, nofun, nofun⟩

theorem Echoes.resident (h : s.Echoes t n last) : t.resident = s.resident :=
  resident_congr h.same

theorem Echoes.next (h : s.Echoes t n last) : t.next = s.next :=
  next_congr h.same fun j => (h.records j).status

theorem Echoes.ticked (h : s.Echoes t n last) (hn : n + 1 < UInt64.size) :
    s.ticked.Echoes t.tickedPunctual (n + 1) last := by
  have hnow : s.ticks.toNat + 1 < UInt64.size := h.now ▸ hn
  have hs : (s.ticks + 1).toNat = n + 1 := by
    rw [← h.now]
    exact toNat_ticks_ticked hnow
  refine ⟨h.current, h.same, hs, congrArg (· + 1) h.ticks, ?_, fun j => ?_⟩
  · rw [record_ticked, if_pos rfl]
    exact h.idle
  · rw [record_ticked, record_tickedPunctual, h.ticks]
    by_cases hj : j = idleSlot
    · subst hj
      rw [if_pos rfl, if_pos rfl]
      obtain ⟨hsp, he, hst, hw, -, hp⟩ := h.records idleSlot
      refine ⟨hsp, he, hst, hw, fun hb => ?_, fun hz => Nat.le_succ_of_le (hp hz)⟩
      rw [h.idle] at hb
      cases hb
    · rw [if_neg hj, if_neg hj]
      exact (h.records j).woken hs

theorem Echoes.slept (h : s.Echoes t n last) (hi : s.resident ≠ idleSlot) {m : UInt32}
    (hn : n + UInt32.size < UInt64.size) :
    (s.slept m).Echoes (t.slept (max m 1)) n fun j => (s.sleepBy j (.sleep m)).or (last j) := by
  refine ⟨h.current, h.same, h.now, h.ticks, ?_, fun j => ?_⟩
  · rw [record_slept, if_neg hi]
    exact h.idle
  · rw [record_slept, record_slept, h.resident, h.ticks, sleepBy]
    by_cases hj : s.resident = j
    · rw [if_pos hj, if_pos hj, if_pos ⟨hj, hj ▸ hi⟩]
      exact (h.records j).asleep h.now hn
    · rw [if_neg hj, if_neg hj, if_neg fun hc => hj hc.1]
      exact h.records j

theorem Echoes.turned (h : s.Echoes t n last) : s.turned.Echoes t.turned n last := by
  refine ⟨(toNat_slot _).symm ▸ s.next.isLt, ?_, h.now, h.ticks, h.idle, h.records⟩
  rw [Scheduler.turned, Scheduler.turned, h.next]

theorem Echoes.swapped (h : s.Echoes t n last) (w : Word) :
    (s.swapped w).Echoes (t.swapped w) n last := by
  refine ⟨toNat_current_swapped s w ▸ s.next.isLt, ?_, h.now, h.ticks, ?_, fun j => ?_⟩
  · rw [Scheduler.swapped, Scheduler.swapped, h.next]
  · rw [status_swapped]
    exact h.idle
  · rw [record_swapped, record_swapped, h.resident]
    split
    · exact (h.records j).left w
    · exact h.records j

/-- Both obey every command, with the same answer. -/
theorem Echoes.obey (h : s.Echoes t n last) (c : Command)
    (hn : n + (if c = .tick then 1 else 0) + UInt32.size < UInt64.size) :
    ∃ r s' t', usual c s = .ok r s' ∧ punctual c t = .ok r t' ∧
      s'.Echoes t' (n + if c = .tick then 1 else 0) fun j => (s.sleepBy j c).or (last j) := by
  have hc : t.current.toNat < 5 := h.same ▸ h.current
  have ht : t.ticks.toNat = n := h.ticks ▸ h.now
  cases c with
  | tick =>
    rw [if_pos rfl] at hn ⊢
    have hlt : n + 1 < UInt64.size := Nat.lt_of_le_of_lt (Nat.le_add_right _ _) hn
    exact ⟨_, _, _, usual_tick (h.now ▸ hlt), punctual_tick (ht ▸ hlt), h.ticked hlt⟩
  | sleep m =>
    rw [if_neg nofun] at hn ⊢
    by_cases hi : s.resident = idleSlot
    · refine ⟨_, _, _, usual_sleep_of_idle h.current hi m,
        usual_sleep_of_idle hc (h.resident.trans hi) _, ?_⟩
      have hs (j : Slot) : s.sleepBy j (.sleep m) = none :=
        if_neg fun ⟨hj, hne⟩ => hne (hj.symm.trans hi)
      simp only [hs, Option.none_or]
      exact h
    · have hlt (d : UInt32) : n + d.toNat < UInt64.size :=
        Nat.lt_trans (Nat.add_lt_add_left d.toNat_lt n) hn
      exact ⟨_, _, _, usual_sleep h.current hi (h.now ▸ hlt m),
        usual_sleep hc (h.resident ▸ hi) (ht ▸ hlt _), h.slept hi hn⟩
  | select =>
    refine ⟨_, _, _, usual_select h.current, ?_, h.turned⟩
    rw [← h.next]
    exact usual_select hc
  | swap w =>
    have hr : ((s.swapped w).record s.next).stackPointer =
        ((t.swapped w).record t.next).stackPointer := by
      rw [h.next]
      exact ((h.swapped w).records s.next).stackPointer.symm
    refine ⟨_, _, _, usual_swap h.current w, ?_, h.swapped w⟩
    rw [hr]
    exact usual_swap hc w

/-- The step of the induction is `Echoes.obey`; nothing overflows as long as a whole sleep's length
still fits on top of the clock. -/
theorem Echoes.run (h : s.Echoes t n last) {cs : List Command}
    (hn : n + cs.count .tick + UInt32.size < UInt64.size) :
    (usual.run s cs).Echoes (punctual.run t cs) (n + cs.count .tick)
        (fun j => (s.lastSleep j cs).or (last j)) ∧
      punctual.responses t cs = usual.responses s cs ∧
      ∀ r ∈ usual.responses s cs, r.isOk = true := by
  induction cs generalizing s t n last with
  | nil => exact ⟨h, rfl, nofun⟩
  | cons c cs ih =>
    have hcount : n + (c :: cs).count .tick =
        n + (if c = .tick then 1 else 0) + cs.count .tick := by
      rw [List.count_cons]
      simp only [beq_iff_eq]
      omega
    rw [hcount] at hn ⊢
    obtain ⟨r, s', t', hs, ht, h'⟩ := h.obey c (by omega)
    obtain ⟨hrun, hresp, hok⟩ := ih h' hn
    have hs' : usual.after s c = s' := Regime.after_of_ok hs
    have ht' : punctual.after t c = t' := Regime.after_of_ok ht
    refine ⟨?_, ?_, ?_⟩
    · simp only [lastSleep, hs', Option.or_assoc]
      rw [Regime.run, Regime.run, List.foldl_cons, List.foldl_cons, hs', ht']
      exact hrun
    · rw [Regime.responses, Regime.responses, hs', ht', hresp, Action.outcome_of_ok hs,
        Action.outcome_of_ok ht]
    · rw [Regime.responses, hs', Action.outcome_of_ok hs]
      intro a ha
      rcases List.mem_cons.mp ha with rfl | ha
      · rfl
      · exact hok a ha

/-! ## What can be observed -/

/-- Two schedulers that differ in wake ticks at most. -/
structure Resembles (s t : Scheduler) : Prop where
  current : t.current = s.current
  ticks : t.ticks = s.ticks
  status : ∀ j, (t.record j).status = (s.record j).status
  stackPointer : ∀ j, (t.record j).stackPointer = (s.record j).stackPointer
  entry : ∀ j, (t.record j).entry = (s.record j).entry

theorem Echoes.resembles (h : s.Echoes t n last) : s.Resembles t :=
  ⟨h.same, h.ticks, fun j => (h.records j).status, fun j => (h.records j).stackPointer,
    fun j => (h.records j).entry⟩

theorem Resembles.symm (h : s.Resembles t) : t.Resembles s :=
  ⟨h.current.symm, h.ticks.symm, fun j => (h.status j).symm, fun j => (h.stackPointer j).symm,
    fun j => (h.entry j).symm⟩

theorem Resembles.trans {u : Scheduler} (h : s.Resembles t) (h' : t.Resembles u) :
    s.Resembles u :=
  ⟨h'.current.trans h.current, h'.ticks.trans h.ticks, fun j => (h'.status j).trans (h.status j),
    fun j => (h'.stackPointer j).trans (h.stackPointer j),
    fun j => (h'.entry j).trans (h.entry j)⟩

theorem Resembles.eq_of_wake (h : s.Resembles t)
    (hw : ∀ j, (t.record j).wake = (s.record j).wake) : s = t := by
  have hr (j : Slot) : s.record j = t.record j := by
    have hsp := h.stackPointer j
    have hst := h.status j
    have he := h.entry j
    have hwj := hw j
    rcases hs : s.record j with ⟨sp, w, st, e⟩
    rcases ht : t.record j with ⟨sp', w', st', e'⟩
    rw [hs, ht] at hsp hst he hwj
    cases hsp
    cases hst
    cases he
    cases hwj
    rfl
  rcases s with ⟨tasks, current, ticks⟩
  rcases t with ⟨tasks', current', ticks'⟩
  cases h.current
  cases h.ticks
  have ht : tasks = tasks' := by
    apply Vector.ext
    intro i hi
    exact hr ⟨i, hi⟩
  rw [ht]

theorem mem_of_lastSleep {j : Slot} {m : UInt32} {cs : List Command}
    (h : s.lastSleep j cs = some m) : .sleep m ∈ cs := by
  induction cs generalizing s with
  | nil => cases h
  | cons c cs ih =>
    rw [lastSleep] at h
    cases hl : (usual.after s c).lastSleep j cs with
    | some m' =>
      rw [hl] at h
      cases h
      exact List.mem_cons_of_mem c (ih hl)
    | none =>
      rw [hl, Option.none_or] at h
      cases c with
      | sleep d =>
        rw [sleepBy] at h
        split at h
        · cases h
          exact List.mem_cons_self
        · cases h
      | _ => cases h

/-- The command with a sleep of no ticks made one of a single tick. -/
def Command.rounded : Command → Command
  | .sleep n => .sleep (max n 1)
  | c => c

theorem punctual_rounded (c : Command) : punctual c.rounded = punctual c := by
  cases c with
  | sleep n =>
    have hm : max (max n 1) 1 = max n 1 := by
      by_cases h : n = 0
      · subst h
        rfl
      · rw [Record.max_one_of_ne h, Record.max_one_of_ne h]
    rw [Command.rounded, punctual, punctual, hm]
  | _ => rfl

theorem punctual_run_rounded (s : Scheduler) (cs : List Command) :
    punctual.run s (cs.map .rounded) = punctual.run s cs ∧
      punctual.responses s (cs.map .rounded) = punctual.responses s cs := by
  induction cs generalizing s with
  | nil => exact ⟨rfl, rfl⟩
  | cons c cs ih =>
    have hc : punctual.after s c.rounded = punctual.after s c := by
      rw [Regime.after, punctual_rounded, Regime.after]
    obtain ⟨hrun, hresp⟩ := ih (punctual.after s c)
    constructor
    · rw [Regime.run, List.map_cons, List.foldl_cons, hc]
      exact hrun
    · rw [List.map_cons, Regime.responses, hc, hresp, punctual_rounded, Regime.responses]

theorem count_tick_rounded (cs : List Command) :
    (cs.map Command.rounded).count .tick = cs.count .tick := by
  induction cs with
  | nil => rfl
  | cons c cs ih =>
    rw [List.map_cons, List.count_cons, List.count_cons, ih]
    cases c <;> rfl

/-- **Waking on the dot.** From the filled table on, and for any commands with fewer ticks than
would bring the clock within a sleep's length of its end, the usual regime and the punctual one
answer alike and keep the same clock, the same turn and the same records, except that after a sleep
of no ticks the punctual wake tick is one later. Without such sleeps nothing differs; and a sleep of no
ticks passes for one of a single tick. A run up to any of its steps is itself a run. -/
theorem punctual_indistinguishable (s₀ : Scheduler) (a₀ : Arena) (app : Application)
    (cs : List Command) (hcs : cs.count .tick < UInt64.size - UInt32.size) :
    ∃ s a, s₀.populate a₀ app = .ok (s, a) ∧
      (usual.run s cs).Resembles (punctual.run s cs) ∧
      punctual.responses s cs = usual.responses s cs ∧
      (∀ r ∈ usual.responses s cs, r.isOk = true) ∧
      (∀ j, ((punctual.run s cs).record j).wake.toNat =
        ((usual.run s cs).record j).wake.toNat + if s.lastSleep j cs = some 0 then 1 else 0) ∧
      ((∀ n, .sleep n ∈ cs → n ≠ 0) → usual.run s cs = punctual.run s cs) ∧
      ∀ cs' : List Command, cs'.map Command.rounded = cs.map Command.rounded →
        (usual.run s cs).Resembles (usual.run s cs') ∧
        usual.responses s cs' = usual.responses s cs := by
  have hroom {ds : List Command} (hds : ds.count .tick < UInt64.size - UInt32.size) :
      0 + ds.count .tick + UInt32.size < UInt64.size := by omega
  have law {ds : List Command} (hds : ds.count .tick < UInt64.size - UInt32.size) :=
    (echoes_fresh app).run (hroom hds)
  obtain ⟨h, hresp, hok⟩ := law hcs
  have hwake (j : Slot) := (h.records j).wake
  simp only [Option.or_none] at hwake
  refine ⟨fresh app, a₀.prepared app, populate_eq s₀ a₀ app, h.resembles, hresp, hok, hwake, ?_, ?_⟩
  · intro hne
    refine h.resembles.eq_of_wake fun j => UInt64.toNat_inj.mp ?_
    rw [hwake, if_neg fun hl => hne 0 (mem_of_lastSleep hl) rfl, Nat.add_zero]
  · intro cs' hr
    have hcs' : cs'.count .tick < UInt64.size - UInt32.size := by
      rw [← count_tick_rounded, hr, count_tick_rounded]
      exact hcs
    obtain ⟨h', hresp', -⟩ := law hcs'
    obtain ⟨hrun, hres⟩ := punctual_run_rounded (fresh app) cs
    obtain ⟨hrun', hres'⟩ := punctual_run_rounded (fresh app) cs'
    have hpr : punctual.run (fresh app) cs' = punctual.run (fresh app) cs := by
      rw [← hrun', hr, hrun]
    refine ⟨h.resembles.trans (hpr ▸ h'.resembles.symm), ?_⟩
    rw [← hresp, ← hresp', ← hres', hr, hres]

/-- The first task sleeps for two ticks and, before the turn is passed on, once more for none; the
second sleeps for two ticks, and both wake. -/
def naps : List Command :=
  [.tick, .sleep 2, .sleep 0, .swap (.number 8), .sleep 2, .swap (.number 16), .tick, .select,
    .tick]

theorem punctual_indistinguishable_naps :
    naps.count .tick < UInt64.size - UInt32.size ∧
    ∃ s a, blank.populate .zeroed .numbered = .ok (s, a) ∧
      (usual.run s naps).Resembles (punctual.run s naps) ∧
      punctual.responses s naps = usual.responses s naps ∧
      s.lastSleep 1 naps = some 0 ∧ s.lastSleep 2 naps = some 2 ∧
      ((punctual.run s naps).record 1).wake.toNat =
        ((usual.run s naps).record 1).wake.toNat + 1 ∧
      ((punctual.run s naps).record 2).wake.toNat = ((usual.run s naps).record 2).wake.toNat := by
  have hn : naps.count .tick < UInt64.size - UInt32.size := by decide
  obtain ⟨s, a, hs, hres, hresp, -, hw, -, -⟩ :=
    punctual_indistinguishable blank .zeroed .numbered naps hn
  have hf : s = fresh .numbered :=
    congrArg Prod.fst (Except.ok.inj (hs.symm.trans (populate_eq _ _ _)))
  have hl : s.lastSleep 1 naps = some 0 ∧ s.lastSleep 2 naps = some 2 := by
    rw [hf]
    decide +kernel
  have hw₁ := hw 1
  have hw₂ := hw 2
  rw [hl.1, if_pos rfl] at hw₁
  rw [hl.2, if_neg (by decide), Nat.add_zero] at hw₂
  exact ⟨hn, s, a, hs, hres, hresp, hl.1, hl.2, hw₁, hw₂⟩

end Scheduler
end RoundRobin

import RoundRobin.Proofs.Kernel.Abstraction
import RoundRobin.Proofs.Machine.Transparency

/-!
What the machine adds to the scheduler: nothing that the schedule depends on. Registers, stacks and
the handler of the switch only decide when the kernel is called; a kernel behind a latch that gets
the same calls stays in step, and so does a bare scheduler. Main statement: `follows_scheduler`.
-/

namespace RoundRobin

/-- What the kernel gets to see of a deed. -/
inductive Cue where
  | populate (app : Application)
  | start (app : Application)
  | clock
  | delay (ticks : UInt32)
  | request
  | switch
  | halt
  deriving DecidableEq, Repr

def Deed.cue? : Deed → Option Cue
  | .event (.populate app) => some (.populate app)
  | .event (.start app) => some (.start app)
  | .event .clock => some .clock
  | .event (.delay n) => some (.delay n)
  | .event (.setUp .request) => some .request
  | .event .switch => some .switch
  | .event .fault | .event .halt => some .halt
  | _ => none

namespace Cue

/-- The calls of the kernel that a cue brings about. When the switch is taken, the processor takes
the request away. -/
def calls (taken : Bool) (outgoing : Word) : Cue → List Operation
  | .populate app | .start app => [.populate app]
  | .clock => [.tick]
  | .delay n => [.delay n]
  | .request => [.request]
  | .switch => if taken then [.take, .swap outgoing] else []
  | .halt => []

/-- Whether no switch is taken any more. Another start halts the processor. -/
def stops : Cue → Bool
  | .start _ | .halt => true
  | _ => false

end Cue

/-! ## A kernel behind a latch -/

namespace Machine

variable {m m' : Machine} {k : Kernel Latch} {p q s : Int} {L : Slot → View} {d : Deed}

/-- The stack pointer that the switch hands to the kernel, below the context. -/
def outgoing (m : Machine) : Word :=
  match m.cpu.psp with
  | .address p => .address (p - contextWords)
  | w => w

def callsOf (m : Machine) (d : Deed) : List Operation :=
  match d.cue? with
  | some c => c.calls (m.takes d) m.outgoing
  | none => []

/-- The calls of the kernel during a run. -/
def calls (m : Machine) : List Deed → List Operation
  | [] => []
  | d :: ds => m.callsOf d ++ (m.act d).calls ds

/-- A latched kernel that is where the machine is. -/
structure InStep (k : Kernel Latch) (m : Machine) : Prop where
  scheduler : k.scheduler = m.kernel.scheduler
  populated : k.populated = m.kernel.populated
  pending : k.signal.pending = m.peripherals.isPending

theorem InStep.pended (h : InStep k m) (t : Scheduler) :
    InStep (k.withScheduler t).pended
      { m with kernel := (m.kernel.withScheduler t).pended } :=
  ⟨rfl, h.populated, (Peripherals.isPending_pendSwitch _).symm⟩

/-- The stacks have no part in it. -/
theorem InStep.of_arena (h : InStep k m)
    (hk : m'.kernel = { m.kernel with arena := m'.kernel.arena }) : InStep k m' := by
  refine ⟨?_, ?_, ?_⟩
  · rw [hk]
    exact h.scheduler
  · rw [hk]
    exact h.populated
  · rw [peripherals, hk]
    exact h.pending

theorem InStep.switched (h : InStep k m) (hc : m.kernel.current.toNat < 5)
    (hp : m.cpu.psp = .address p) (hs : m.Switched m' p q s) :
    InStep (k.run [.take, .swap m.outgoing]) m' := by
  have ho : m.outgoing = .address (p - 16) := by
    simp only [outgoing, hp]
    rfl
  have hk : (k.after .take).current.toNat < 5 := by
    rw [show (k.after .take).current = k.scheduler.current from rfl, h.scheduler]
    exact hc
  rw [Kernel.run_cons, Kernel.run_cons, Kernel.run_nil, Kernel.after_swap hk, ho]
  refine ⟨?_, ?_, ?_⟩
  · rw [hs.scheduler, ← h.scheduler]
    rfl
  · exact h.populated.trans hs.populated.symm
  · rw [peripherals, hs.signal, Peripherals.isPending_clearPending]
    rfl

/-- One deed on the machine is its calls on the kernel. -/
theorem InStep.act (h : InStep k m) (hm : m.Hosts s L) (hd : Apart s) (hk : m.Keeps d)
    (hu : ∀ v, d ≠ .event (.poke .icsr v)) : InStep (k.run (m.callsOf d)) (m.act d) := by
  have of_eq (he : m.act d = m) : InStep k (m.act d) := he.symm ▸ h
  have hrefused (app : Application) : k.run [.populate app] = k := by
    rw [Kernel.run_cons, Kernel.run_nil, Kernel.after_populate,
      if_pos (h.populated.trans hm.populated)]
  have hkc : k.current.toNat < 5 := by
    rw [Kernel.current, h.scheduler]
    exact hm.current
  cases d with
  | event e =>
    cases e with
    | poke r v =>
      cases r with
      | icsr => exact absurd rfl (hu v)
      | _ => exact ⟨h.scheduler, h.populated, h.pending⟩
    | setUp c =>
      have hquiet (hr : c ≠ .request) : InStep k (m.act (.event (.setUp c))) :=
        ⟨h.scheduler, h.populated, h.pending.trans (Peripherals.isPending_setUp hr _).symm⟩
      cases c with
      | request => exact ⟨h.scheduler, h.populated, (Peripherals.isPending_pendSwitch _).symm⟩
      | _ => exact hquiet (by decide)
    | populate app => exact (hrefused app).symm ▸ of_eq (act_populate hm.populated app)
    | start app =>
      rw [act_start hm.populated]
      exact (hrefused app).symm ▸ ⟨h.scheduler, h.populated, h.pending⟩
    | clock =>
      have hr : k.run (m.callsOf (.event .clock)) = _ := Kernel.after_tick k
      rw [act_clock, hr, Kernel.now, Kernel.now, h.scheduler]
      split
      · exact h.pended _
      · exact h
    | delay n =>
      have hr : k.run (m.callsOf (.event (.delay n))) = _ := Kernel.after_delay hkc n
      rw [act_delay hm.current, hr, Kernel.now, Kernel.now, Kernel.resident, Kernel.resident,
        h.scheduler]
      split
      · exact h.pended _
      · exact h
    | setRegisters g => exact ⟨h.scheduler, h.populated, h.pending⟩
    | readRegisters => exact h
    | push ws => exact h.of_arena (act_of_usesStack rfl).2
    | pop n => exact h.of_arena (act_of_usesStack rfl).2
    | switch =>
      -- A switch that is not taken calls nothing, whatever it answers.
      have hcalls : m.callsOf (.event .switch) =
        if m.takes (.event .switch) then [.take, .swap m.outgoing] else [] := rfl
      cases ht : m.takes (.event .switch) with
      | false =>
        rw [hcalls, if_neg (Bool.eq_false_iff.mp ht)]
        exact of_eq (act_switch ht)
      | true =>
        obtain ⟨m', p, q, hp, -, -, hstep, hsw⟩ := hm.switched hd ht (within_of_keeps ht hk)
        rw [hcalls, if_pos ht, act_of_ok hstep]
        exact h.switched hm.current hp hsw
    | fault => exact ⟨h.scheduler, h.populated, h.pending⟩
    | halt => exact ⟨h.scheduler, h.populated, h.pending⟩
  | work g p r => exact ⟨h.scheduler, h.populated, h.pending⟩

theorem InStep.acts (h : InStep k m) (hm : m.Hosts s L) (hd : Apart s) {ds : List Deed}
    (ho : m.Orderly ds) (hu : ∀ v, .event (.poke .icsr v) ∉ ds) :
    InStep (k.run (m.calls ds)) (m.acts ds) := by
  induction ds generalizing k m L with
  | nil => exact h
  | cons d ds ih =>
    have hn := h.act hm hd ho.1 fun v he => hu v (he ▸ List.mem_cons_self)
    rw [calls, Kernel.run_append]
    exact ih hn (hm.act hd ho.1) ho.2 fun v he => hu v (List.mem_cons_of_mem d he)

/-- A switch leaves the mask as it is. -/
theorem masked_act (hm : m.Hosts s L) (hd : Apart s) (hk : m.Keeps d) :
    (m.act d).cpu.masked = (m.cpu.masked || d.cue?.any Cue.stops) := by
  have of_eq (he : m.act d = m) : (m.act d).cpu.masked = (m.cpu.masked || false) := by
    rw [he, Bool.or_false]
  have of_use (hu : d.usesStack = true) : (m.act d).cpu.masked = (m.cpu.masked || false) := by
    obtain ⟨⟨g, w, hcpu⟩, -⟩ := act_of_usesStack (m := m) hu
    rw [hcpu, Bool.or_false]
  cases d with
  | event e =>
    cases e with
    | setUp c => cases c <;> exact (Bool.or_false _).symm
    | populate app => exact of_eq (act_populate hm.populated app)
    | start app =>
      rw [act_start hm.populated]
      exact (Bool.or_true _).symm
    | clock =>
      rw [act_clock]
      split <;> exact (Bool.or_false _).symm
    | delay n =>
      rw [act_delay hm.current]
      split <;> exact (Bool.or_false _).symm
    | push ws => exact of_use rfl
    | pop n => exact of_use rfl
    | switch =>
      cases ht : m.takes (.event .switch) with
      | false => exact of_eq (act_switch ht)
      | true =>
        obtain ⟨m', p, q, -, -, -, hstep, hsw⟩ := hm.switched hd ht (within_of_keeps ht hk)
        rw [act_of_ok hstep, hsw.masked]
        exact (Bool.or_false _).symm
    | fault => exact (Bool.or_true _).symm
    | halt => exact (Bool.or_true _).symm
    | _ => exact (Bool.or_false _).symm
  | work g p r => exact (Bool.or_false _).symm

end Machine

/-! ## The same cues, the same schedule -/

/-- All of a machine that its cues act on. -/
structure Port where
  kernel : Kernel Latch
  masked : Bool

namespace Port

def due (p : Port) : Bool := p.kernel.signal.pending && !p.masked

/-- The port after a cue. A switch that is due is taken, and every stack pointer is null. -/
def heed (p : Port) (c : Cue) : Port where
  kernel := p.kernel.run (c.calls p.due .null)
  masked := p.masked || c.stops

def run (p : Port) (cs : List Cue) : Port := cs.foldl heed p

/-- The port of a machine whose first task has just been launched. -/
def launched (app : Application) (pending : Bool) : Port :=
  ⟨(Kernel.blank ⟨pending⟩).filled app, false⟩

end Port

theorem Kernel.Alike.calls {k l : Kernel Latch} (h : k.Alike l) (c : Cue) (taken : Bool)
    (v w : Word) : (k.run (c.calls taken v)).Alike (l.run (c.calls taken w)) := by
  cases c with
  | switch =>
    cases taken with
    | false => exact h
    | true => exact (h.after .take).swap v w
  | halt => exact h
  | _ => exact h.after _

namespace Machine

variable {m : Machine} {k : Kernel Latch} {s : Int} {L : Slot → View} {d : Deed} {p : Port}

def due (m : Machine) : Bool := m.peripherals.isPending && !m.cpu.masked

/-- A switch that is due finds room for the context. -/
def HasRoom (m : Machine) (d : Deed) : Prop :=
  d.cue? = some .switch → m.due = true → (m.stackRoom contextWords 0).isSome = true

instance (m : Machine) (d : Deed) : Decidable (m.HasRoom d) :=
  inferInstanceAs (Decidable (d.cue? = some .switch → m.due = true →
    (m.stackRoom contextWords 0).isSome = true))

/-- Every switch that is due finds room for the context. -/
def Roomy (m : Machine) : List Deed → Prop
  | [] => True
  | d :: ds => m.HasRoom d ∧ (m.act d).Roomy ds

def decidableRoomy (m : Machine) : (ds : List Deed) → Decidable (m.Roomy ds)
  | [] => isTrue trivial
  | d :: ds =>
    have := decidableRoomy (m.act d) ds
    inferInstanceAs (Decidable (m.HasRoom d ∧ (m.act d).Roomy ds))

instance (m : Machine) (ds : List Deed) : Decidable (m.Roomy ds) := m.decidableRoomy ds

theorem HasRoom.takes_eq_due (h : m.HasRoom d) (hc : d.cue? = some .switch) :
    m.takes d = m.due := by
  obtain rfl : d = .event .switch := by
    cases d with
    | event e =>
      cases e with
      | setUp c => cases c <;> cases hc
      | switch => rfl
      | _ => cases hc
    | work g p r => cases hc
  have ht : m.takes (.event .switch) = (m.due && (m.stackRoom contextWords 0).isSome) := rfl
  cases hdue : m.due with
  | false => rw [ht, hdue, Bool.false_and]
  | true => rw [ht, h hc hdue, hdue, Bool.true_and]

/-- The machine is where the port is in the schedule. -/
structure Mimics (p : Port) (m : Machine) : Prop where
  kernel : ∃ k, InStep k m ∧ k.Alike p.kernel
  masked : p.masked = m.cpu.masked

theorem Mimics.due (h : Mimics p m) : p.due = m.due := by
  obtain ⟨k, hs, ha⟩ := h.kernel
  rw [Port.due, Machine.due, h.masked, ← ha.pending, hs.pending]

theorem Mimics.act (h : Mimics p m) (hm : m.Hosts s L) (hd : Apart s) (hk : m.Keeps d)
    (hu : ∀ v, d ≠ .event (.poke .icsr v)) (hr : m.HasRoom d) :
    Mimics (d.cue?.elim p p.heed) (m.act d) := by
  obtain ⟨k, hs, ha⟩ := h.kernel
  have hs := hs.act hm hd hk hu
  have hmasked := masked_act hm hd hk
  rw [← h.masked] at hmasked
  rw [callsOf] at hs
  cases hc : d.cue? with
  | none =>
    rw [hc] at hs hmasked
    exact ⟨⟨k, hs, ha⟩, ((Bool.or_false _).symm.trans hmasked.symm)⟩
  | some c =>
    rw [hc] at hs hmasked
    -- Only for a switch does it matter whether it is taken.
    have hcalls : c.calls (m.takes d) m.outgoing = c.calls p.due m.outgoing := by
      cases c with
      | switch => rw [hr.takes_eq_due hc, h.due]
      | _ => rfl
    exact ⟨⟨_, hcalls ▸ hs, ha.calls c p.due m.outgoing .null⟩, hmasked.symm⟩

theorem Mimics.acts (h : Mimics p m) (hm : m.Hosts s L) (hd : Apart s) {ds : List Deed}
    (ho : m.Orderly ds) (hu : ∀ v, .event (.poke .icsr v) ∉ ds) (hr : m.Roomy ds) :
    Mimics (p.run (ds.filterMap Deed.cue?)) (m.acts ds) := by
  induction ds generalizing p m L with
  | nil => exact h
  | cons d ds ih =>
    have hn := ih (h.act hm hd ho.1 (fun v he => hu v (he ▸ List.mem_cons_self)) hr.1)
      (hm.act hd ho.1) ho.2 (fun v he => hu v (List.mem_cons_of_mem d he)) hr.2
    cases hc : d.cue? with
    | none =>
      rw [hc] at hn
      rw [List.filterMap_cons_none hc]
      exact hn
    | some c =>
      rw [hc] at hn
      rw [List.filterMap_cons_some hc]
      exact hn

/-- A run from a first start on a machine whose handlers have their stack outside the task stacks.
Every running task keeps to its region, and nobody writes to the register of the pending bit. -/
structure Course (app : Application) (m m₀ : Machine) (ds : List Deed) : Prop where
  handlers : ∃ s, m.cpu.msp = .address s ∧ Apart s
  started : start app m = .ok true m₀
  orderly : m₀.Orderly ds
  unpoked : ∀ v, .event (.poke .icsr v) ∉ ds

theorem isPending_launched (m : Machine) (app : Application) :
    (m.launched app).peripherals.isPending = m.peripherals.isPending := by
  have hset : (m.launched app).peripherals =
      ((m.peripherals.setUp .faults).setUp .priorities).setUp .timer := rfl
  rw [hset]
  simp [Peripherals.isPending_setUp]

theorem inStep_launched {app : Application} (hk : k.populated = false)
    (hp : k.signal.pending = m.peripherals.isPending) :
    InStep (k.after (.populate app)) (m.launched app) := by
  rw [Kernel.after_populate, if_neg (Bool.eq_false_iff.mp hk)]
  exact ⟨rfl, rfl, hp.trans (isPending_launched m app).symm⟩

theorem mimics_launched (m : Machine) (app : Application) :
    Mimics (.launched app m.peripherals.isPending) (m.launched app) := by
  have h : InStep ((Kernel.blank ⟨m.peripherals.isPending⟩).filled app) (m.launched app) :=
    ⟨rfl, rfl, (isPending_launched m app).symm⟩
  exact ⟨⟨_, h, Scheduler.current_fresh app, ⟨rfl, rfl⟩, .refl _, rfl⟩, rfl⟩

theorem Course.mimics {m₀ : Machine} {ds : List Deed} {app : Application}
    (h : Course app m m₀ ds) (hr : m₀.Roomy ds) :
    Mimics ((Port.launched app m.peripherals.isPending).run (ds.filterMap Deed.cue?))
      (m₀.acts ds) := by
  obtain ⟨s, hs, hd⟩ := h.handlers
  have hm := hosts_of_start hs h.started
  obtain ⟨-, rfl⟩ := launched_of_start h.started
  exact (mimics_launched m app).acts hm hd h.orderly h.unpoked hr

/-- **The machine keeps the scheduler's schedule.** In every run from a first start, the current
slot, the time and every status are those of a scheduler by itself that is told of each tick, each
sleep and each taken switch, and of nothing else; and the pending bit is the latch of a kernel that
gets the same calls. Registers, stacks and whatever else the kernel does not see have no part in it:
as long as every switch that is due finds room, the cues of a run alone decide. A run up to any of
its steps is itself a run. -/
theorem follows_scheduler (app : Application) (m m₀ : Machine) (ds : List Deed)
    (h : Course app m m₀ ds) :
    let n := m₀.acts ds
    let os := m₀.calls ds
    (∀ s₀ a₀, ∃ t a, Scheduler.populate s₀ a₀ app = .ok (t, a) ∧
      n.kernel.Shows (Scheduler.usual.run t (os.filterMap Operation.command?))) ∧
    (∀ k : Kernel Latch, k.populated = false → k.signal.pending = m.peripherals.isPending →
      let l := k.run (.populate app :: os)
      l.signal.pending = n.peripherals.isPending ∧ l.scheduler = n.kernel.scheduler) ∧
    ∀ m' m₀' ds', Course app m' m₀' ds' → m'.peripherals.isPending = m.peripherals.isPending →
      m₀.Roomy ds → m₀'.Roomy ds' → ds'.filterMap Deed.cue? = ds.filterMap Deed.cue? →
        (m₀'.acts ds').kernel.Shows n.kernel.scheduler ∧
        (m₀'.acts ds').peripherals.isPending = n.peripherals.isPending := by
  intro n os
  obtain ⟨s, hs, hd⟩ := h.handlers
  have hm := hosts_of_start hs h.started
  have hstep (k : Kernel Latch) (hk : k.populated = false)
      (hp : k.signal.pending = m.peripherals.isPending) :
      InStep (k.run (.populate app :: os)) n := by
    obtain ⟨-, rfl⟩ := launched_of_start h.started
    exact (inStep_launched hk hp).acts hm hd h.orderly h.unpoked
  refine ⟨fun s₀ a₀ => ?_, fun k hk hp => ?_, ?_⟩
  · refine ⟨_, _, Scheduler.populate_eq s₀ a₀ app, Scheduler.Tracks.shows ?_⟩
    obtain ⟨k, hk⟩ : ∃ k : Kernel Latch, k = .blank ⟨m.peripherals.isPending⟩ := ⟨_, rfl⟩
    have hp : k.populated = false := hk ▸ rfl
    have hc : (k.filled app).current.toNat < 5 := Scheduler.current_fresh app
    rw [← (hstep k hp (hk ▸ rfl)).scheduler, Kernel.run_cons, Kernel.after_populate,
      if_neg (Bool.eq_false_iff.mp hp)]
    exact Kernel.tracks_run hc rfl (.refl _) os
  · exact ⟨(hstep k hk hp).pending, (hstep k hk hp).scheduler⟩
  · intro m' m₀' ds' h' hp hr hr' hcues
    obtain ⟨k, hk, hka⟩ := (h.mimics hr).kernel
    obtain ⟨k', hk', hka'⟩ := (h'.mimics hr').kernel
    rw [hp, hcues] at hka'
    refine ⟨Scheduler.Tracks.shows ?_, ?_⟩
    · rw [← hk.scheduler, ← hk'.scheduler]
      exact hka'.scheduler.trans hka.scheduler.symm
    · rw [← hk.pending, ← hk'.pending]
      exact hka'.pending.trans hka.pending.symm

/-- The errand once more, with other work in between. -/
def detour : List Deed :=
  [.event (.setRegisters .zeroed), .event (.delay 1), .event .switch,
    .event (.delay 9), .event (.setUp .timer), .event .switch,
    .event (.push [.null, .null, .null, .null]), .event (.pop 2), .event .clock,
    .work ⟨.replicate 13 (.number 3), .number 4, .number 5, .number 6⟩ 784 .zeroed,
    .event (.delay 9), .event .switch,
    .event (.delay 9), .event (.poke .shcsr 0)]

theorem follows_scheduler_errand :
    let m₀ := blank.launched .numbered
    let n := m₀.acts errand
    Course .numbered blank m₀ errand ∧ Course .numbered blank m₀ detour ∧
    (m₀.calls errand).filterMap Operation.command? =
      [.sleep 1, .select, .sleep 9, .select, .tick, .sleep 9, .select, .sleep 9] ∧
    (∃ t a, Scheduler.populate .blank .zeroed .numbered = .ok (t, a) ∧
      n.kernel.Shows (Scheduler.usual.run t ((m₀.calls errand).filterMap Operation.command?))) ∧
    n.peripherals.isPending = true ∧
    ((Kernel.blank Latch.clear).run (.populate .numbered :: m₀.calls errand)).signal.pending =
      n.peripherals.isPending ∧
    (m₀.acts detour).kernel.Shows n.kernel.scheduler := by
  intro m₀ n
  have hstart : start .numbered blank = .ok true m₀ := start_eq rfl _
  have hhandlers : ∃ s, blank.cpu.msp = .address s ∧ Apart s := ⟨handlerTop, rfl, .inr (by decide)⟩
  have horderly : m₀.Orderly errand ∧ m₀.Orderly detour := by decide +kernel +zetaReduce
  have hroomy : m₀.Roomy errand ∧ m₀.Roomy detour := by decide +kernel +zetaReduce
  have h : Course .numbered blank m₀ errand :=
    ⟨hhandlers, hstart, horderly.1, fun v => by simp [errand]⟩
  have h' : Course .numbered blank m₀ detour :=
    ⟨hhandlers, hstart, horderly.2, fun v => by simp [detour]⟩
  obtain ⟨hbare, hport, hcues⟩ := follows_scheduler .numbered blank m₀ errand h
  exact ⟨h, h', by decide +kernel +zetaReduce, hbare _ _, by decide +kernel +zetaReduce,
    (hport _ rfl rfl).1, (hcues blank m₀ detour h' rfl hroomy.1 hroomy.2 rfl).1⟩

end Machine
end RoundRobin

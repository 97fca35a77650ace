import RoundRobin.Proofs.Kernel.Turn
import RoundRobin.Proofs.Periodic.Course
import RoundRobin.Proofs.Scheduler.Population

/-!
When the tasks of a periodic workload run. A task that sleeps for its period each time it has run
wakes at the multiples of the period and at no other tick, because it runs in the very round in which
it wakes; and a round goes through its tasks in ascending order, because it starts from the idle
slot. Main statement: `play_eq_timetable`.
-/

namespace RoundRobin

namespace Periodic

/-- The ticks from one run of a task to the next. A sleep of no ticks lasts until the next tick. -/
def stride (period : UInt32) : Nat := max 1 period.toNat

/-- The application tasks whose turn comes at tick `t`, in ascending order. Task `i` has slot
`i + 1`. -/
def scheduled (periods : Vector UInt32 4) (t : Nat) : List (Fin 4) :=
  (List.finRange 4).filter fun i => stride (periods.get i) ∣ t

def note (t : Nat) (i : Fin 4) : UInt64 × UInt64 := (t.toUInt64, i.succ.val.toUInt64)

/-- What a play of `n` ticks should note: every task at every multiple of its stride. -/
def timetable (periods : Vector UInt32 4) (n : Nat) : Log :=
  (List.range (n + 1)).flatMap fun t => (scheduled periods t).map (note t)

theorem mem_scheduled {periods : Vector UInt32 4} {t : Nat} {i : Fin 4} :
    i ∈ scheduled periods t ↔ stride (periods.get i) ∣ t := by
  simp [scheduled]

theorem pairwise_scheduled (periods : Vector UInt32 4) (t : Nat) :
    (scheduled periods t).Pairwise (· < ·) :=
  List.Pairwise.filter _ (by decide)

theorem length_scheduled_le (periods : Vector UInt32 4) (t : Nat) :
    (scheduled periods t).length ≤ 4 := by
  have h := List.length_filter_le (fun i => decide (stride (periods.get i) ∣ t)) (List.finRange 4)
  simpa [scheduled] using h

end Periodic

open Periodic (stride scheduled note timetable)

namespace Record

variable {r s : Record} {period : UInt32} {t : Nat}

/-- At tick `t` the task sleeps, and it last ran at the last multiple of its stride. -/
structure Rests (r : Record) (period : UInt32) (t : Nat) : Prop where
  status : r.status = .blocked
  last : ∃ m, stride period ∣ m ∧ m ≤ t ∧ t < m + stride period ∧
    r.wake.toNat = m + period.toNat

theorem Rests.congr (h : r.Rests period t) (hs : r.status = s.status) (hw : r.wake = s.wake) :
    s.Rests period t :=
  ⟨hs ▸ h.status, hw ▸ h.last⟩

theorem rests_blockedUntil {now : UInt64} (hd : stride period ∣ t) (ht : now.toNat = t)
    (hn : t + period.toNat < UInt64.size) :
    (r.blockedUntil (now + period.toUInt64)).Rests period t := by
  have hpos : 0 < stride period := Nat.lt_of_lt_of_le Nat.one_pos (Nat.le_max_left _ _)
  refine ⟨rfl, t, hd, Nat.le_refl t, Nat.lt_add_of_pos_right hpos, ?_⟩
  rw [blockedUntil, toNat_add_ticks (ht ▸ hn), ht]

/-- A task that rests is due at the next tick if that is a multiple of its stride. -/
theorem Rests.due_iff (h : r.Rests period t) : r.wake.toNat ≤ t + 1 ↔ stride period ∣ t + 1 := by
  obtain ⟨m, hd, hle, hlt, hw⟩ := h.last
  have hstride : stride period = max 1 period.toNat := rfl
  have hnext : stride period ∣ t + 1 ↔ t + 1 = m + stride period := by
    constructor
    · intro hdvd
      have hsub : stride period ∣ t + 1 - m := Nat.dvd_sub hdvd hd
      have hge : stride period ≤ t + 1 - m := Nat.le_of_dvd (by omega) hsub
      omega
    · intro he
      rw [he]
      exact Nat.dvd_add hd (Nat.dvd_refl _)
  rw [hnext, hw]
  omega

theorem Rests.wakeAt_ready (h : r.Rests period t) {now : UInt64} (hn : now.toNat = t + 1)
    (hd : stride period ∣ t + 1) : (r.wakeAt now).status = .ready := by
  rw [wakeAt_status_eq_ready_iff, UInt64.le_iff_toNat_le, hn]
  exact .inr (h.due_iff.mpr hd)

theorem Rests.wakeAt_rests (h : r.Rests period t) {now : UInt64} (hn : now.toNat = t + 1)
    (hd : ¬ stride period ∣ t + 1) : (r.wakeAt now).Rests period (t + 1) := by
  obtain ⟨m, hm, hle, hlt, hw⟩ := h.last
  have hlate : t + 1 < r.wake.toNat := Nat.not_le.mp fun hle => hd (h.due_iff.mp hle)
  refine ⟨?_, m, hm, Nat.le_succ_of_le hle, ?_, ?_⟩
  · rw [wakeAt_status_eq_blocked_iff, UInt64.lt_iff_toNat_lt, hn]
    exact ⟨h.status, hlate⟩
  · have hge : period.toNat ≤ stride period := Nat.le_max_right _ _
    omega
  · rw [wakeAt_wake, hw]

end Record

namespace Scheduler

variable {s s' : Scheduler} {periods : Vector UInt32 4} {t : Nat} {i : Fin 4} {todo : List (Fin 4)}

/-! ## The first of several ready tasks -/

theorem lt_of_mem_ahead {c i j : Slot} (hc : c < j) (h : i ∈ ahead c j) : i < j := by
  revert c i j
  decide +kernel

theorem succ_ne_idleSlot (i : Fin 4) : i.succ ≠ idleSlot := Fin.succ_ne_zero i

theorem exists_succ_of_ne_idleSlot : ∀ j : Slot, j ≠ idleSlot → ∃ i : Fin 4, i.succ = j := by
  decide

/-- If exactly the tasks `todo` are ready and all their slots are above the current one, then the
lowest of them is next. -/
theorem next_eq_head (hc : s.current.toNat < 5) (ho : todo.Pairwise (· < ·))
    (habove : ∀ i ∈ todo, s.resident < i.succ)
    (hcand : ∀ i : Fin 4, s.isCandidate i.succ = true ↔ i ∈ todo) :
    s.next = (todo.head?.map Fin.succ).getD idleSlot := by
  have hnext (h : s.next ≠ idleSlot) : ∃ i ∈ todo, i.succ = s.next := by
    obtain ⟨i, hi⟩ := exists_succ_of_ne_idleSlot _ h
    exact ⟨i, (hcand i).mp (hi ▸ isCandidate_next h), hi⟩
  cases todo with
  | nil =>
    refine Decidable.byContradiction fun hn => ?_
    obtain ⟨i, hi, -⟩ := hnext hn
    cases hi
  | cons i todo =>
    refine Decidable.byContradiction fun hn => ?_
    have hi : s.isCandidate i.succ = true := (hcand i).mpr List.mem_cons_self
    have hbusy : s.next ≠ idleSlot := by
      rcases next_cases s with ⟨-, hnone⟩ | h
      · exact absurd hi (hnone _)
      · exact ((isCandidate_iff s _).mp h).1
    obtain ⟨m, hm, hms⟩ := hnext hbusy
    have hlt : s.next < i.succ :=
      lt_of_mem_ahead (habove i List.mem_cons_self) (next_mem_ahead hc hi hn)
    rw [← hms, Fin.succ_lt_succ_iff] at hlt
    rcases List.mem_cons.mp hm with rfl | hm
    · exact absurd hlt (Nat.lt_irrefl _)
    · exact absurd hlt (Nat.lt_asymm ((List.pairwise_cons.mp ho).1 m hm))

/-! ## The state within a round -/

/-- At tick `t` the tasks `todo` are ready and still to run; all others rest. -/
structure Owes (s : Scheduler) (periods : Vector UInt32 4) (t : Nat) (todo : List (Fin 4)) :
    Prop where
  current : s.current.toNat < 5
  ticks : s.ticks.toNat = t
  ordered : todo.Pairwise (· < ·)
  due : ∀ i ∈ todo, stride (periods.get i) ∣ t
  ready : ∀ i ∈ todo, (s.record i.succ).status = .ready
  rests : ∀ i, i ∉ todo → (s.record i.succ).Rests (periods.get i) t

/-- Moreover it is the turn of the first of them, or of the idle slot if there is none. -/
structure Serves (s : Scheduler) (periods : Vector UInt32 4) (t : Nat) (todo : List (Fin 4)) :
    Prop extends Owes s periods t todo where
  turn : s.resident = (todo.head?.map Fin.succ).getD idleSlot

theorem Serves.congr (h : s.Serves periods t todo) (ht : s.Tracks s') :
    s'.Serves periods t todo where
  current := ht.current ▸ h.current
  ticks := ht.ticks ▸ h.ticks
  ordered := h.ordered
  due := h.due
  ready i hi := (ht.status _).symm.trans (h.ready i hi)
  rests i hi := (h.rests i hi).congr (ht.status _) (ht.wake _)
  turn := ht.resident.symm.trans h.turn

theorem Owes.isCandidate_iff (h : s.Owes periods t todo) (i : Fin 4) :
    s.isCandidate i.succ = true ↔ i ∈ todo := by
  rw [Scheduler.isCandidate_iff]
  constructor
  · rintro ⟨-, hr⟩
    refine Decidable.byContradiction fun hi => ?_
    cases hr.symm.trans (h.rests i hi).status
  · intro hi
    exact ⟨succ_ne_idleSlot i, h.ready i hi⟩

/-- When the turn is passed on from below, it comes to the first task. -/
theorem Owes.turned (h : s.Owes periods t todo) (habove : ∀ i ∈ todo, s.resident < i.succ) :
    s.turned.Serves periods t todo where
  current := toNat_current_turned s ▸ s.next.isLt
  ticks := h.ticks
  ordered := h.ordered
  due := h.due
  ready := h.ready
  rests := h.rests
  turn := (resident_turned s).trans (next_eq_head h.current h.ordered habove h.isCandidate_iff)

/-- The first task has run and sleeps. -/
theorem Serves.slept (h : s.Serves periods t (i :: todo))
    (hn : t + (periods.get i).toNat < UInt64.size) :
    (s.slept (periods.get i)).turned.Serves periods t todo := by
  obtain ⟨hlow, hordered⟩ := List.pairwise_cons.mp h.ordered
  have hturn : s.resident = i.succ := h.turn
  have howes : (s.slept (periods.get i)).Owes periods t todo := by
    refine ⟨h.current, h.ticks, hordered, fun m hm => h.due m (List.mem_cons_of_mem i hm), ?_, ?_⟩
    · intro m hm
      have hne : i.succ ≠ m.succ := fun he =>
        Nat.lt_irrefl _ (Fin.succ_inj.mp he ▸ hlow m hm)
      rw [record_slept, hturn, if_neg hne]
      exact h.ready m (List.mem_cons_of_mem i hm)
    · intro m hm
      rw [record_slept, hturn]
      by_cases he : i = m
      · subst he
        rw [if_pos rfl]
        exact Record.rests_blockedUntil (h.due i List.mem_cons_self) h.ticks hn
      · rw [if_neg fun hs => he (Fin.succ_inj.mp hs)]
        exact h.rests m fun hmem => hm ((List.mem_cons.mp hmem).resolve_left (Ne.symm he))
  refine howes.turned fun m hm => ?_
  have hres : (s.slept (periods.get i)).resident = i.succ := hturn
  rw [hres, Fin.succ_lt_succ_iff]
  exact hlow m hm

/-- A tick comes when all have run; it wakes the tasks of the next round. -/
theorem Serves.ticked (h : s.Serves periods t []) (hn : t + 1 < UInt64.size) :
    s.ticked.turned.Serves periods (t + 1) (scheduled periods (t + 1)) := by
  have hroom : s.ticks.toNat + 1 < UInt64.size := h.ticks ▸ hn
  have hnow : (s.ticks + 1).toNat = t + 1 := by rw [toNat_add_one hroom, h.ticks]
  have hrecord (i : Fin 4) : s.ticked.record i.succ = (s.record i.succ).wakeAt (s.ticks + 1) := by
    rw [record_ticked, if_neg (succ_ne_idleSlot i)]
  have howes : s.ticked.Owes periods (t + 1) (scheduled periods (t + 1)) := by
    refine ⟨h.current, hnow, Periodic.pairwise_scheduled _ _,
      fun i hi => Periodic.mem_scheduled.mp hi, ?_, ?_⟩
    · intro i hi
      rw [hrecord]
      exact (h.rests i List.not_mem_nil).wakeAt_ready hnow (Periodic.mem_scheduled.mp hi)
    · intro i hi
      rw [hrecord]
      exact (h.rests i List.not_mem_nil).wakeAt_rests hnow fun hd =>
        hi (Periodic.mem_scheduled.mpr hd)
  refine howes.turned fun i _ => ?_
  have hres : s.ticked.resident = idleSlot := h.turn
  rw [hres]
  exact Fin.succ_pos i

theorem serves_fresh (app : Application) (periods : Vector UInt32 4) :
    (fresh app).Serves periods 0 (scheduled periods 0) := by
  have hall : scheduled periods 0 = List.finRange 4 := by
    simp [scheduled]
  refine ⟨⟨current_fresh app, rfl, Periodic.pairwise_scheduled _ _,
    fun i hi => Periodic.mem_scheduled.mp hi, fun i _ => ?_, fun i hi => ?_⟩, ?_⟩
  · rw [record_fresh]
    rfl
  · exact absurd (Periodic.mem_scheduled.mpr (Nat.dvd_zero _)) hi
  · rw [hall]
    rfl

end Scheduler

namespace Periodic

variable {σ : Type} {p : Player σ} {view : σ → Scheduler} {periods : Vector UInt32 4}

theorem note_eq {now slot : UInt64} {t : Nat} {i : Fin 4} (ht : now.toNat = t)
    (hi : slot.toNat = i.val + 1) : note t i = (now, slot) := by
  apply Prod.ext
  · rw [← ht]
    exact UInt64.ofNat_toNat
  · rw [← UInt64.toNat_inj, hi]
    exact Scheduler.toNat_slot i.succ

theorem fetch_sub_one (periods : Vector UInt32 4) {slot : UInt64} {i : Fin 4}
    (hi : slot.toNat = i.val + 1) : fetch periods (slot - 1).toNat = .ok (periods.get i) := by
  have hone : (1 : UInt64) ≤ slot := by
    rw [UInt64.le_iff_toNat_le, hi, UInt64.toNat_one]
    exact Nat.le_add_left 1 _
  have hindex : (slot - 1).toNat = i.val := by
    rw [UInt64.toNat_sub_of_le _ _ hone, hi, UInt64.toNat_one, Nat.add_sub_cancel]
  rw [hindex, fetch_of_lt periods i.isLt]
  rfl

/-- A round goes through the tasks that are still to run, one after the other. -/
theorem Player.Follows.rounds (hp : p.Follows view) {a : σ} {t : Nat} {todo : List (Fin 4)}
    (h : (view a).Serves periods t todo) (hn : t + UInt32.size ≤ UInt64.size) :
    ∃ b, Rounds p periods a (todo.map (note t)) b ∧ (view b).Serves periods t [] := by
  induction todo generalizing a with
  | nil =>
    refine ⟨a, .idle ?_, h⟩
    rw [hp.current, ← UInt64.toNat_inj, ← Scheduler.val_resident h.current, h.turn]
    rfl
  | cons i todo ih =>
    have hturn : (view a).resident = i.succ := h.turn
    have hcur : (p.current a).toNat = i.val + 1 := by
      rw [hp.current, ← Scheduler.val_resident h.current, hturn]
      rfl
    have hroom : t + (periods.get i).toNat < UInt64.size := by
      have hlt : (periods.get i).toNat < UInt32.size := (periods.get i).toNat_lt
      omega
    obtain ⟨b, hpark, hb⟩ := hp.park a (periods.get i) h.current
      (hturn ▸ Scheduler.succ_ne_idleSlot i) (h.ticks ▸ hroom)
    obtain ⟨c, hrest, hc⟩ := ih ((h.slept hroom).congr hb)
    refine ⟨c, ?_, hc⟩
    have hne : p.current a ≠ 0 := by
      intro he
      rw [he] at hcur
      cases hcur
    have hnote : note t i = (p.now a, p.current a) :=
      note_eq ((congrArg UInt64.toNat (hp.now a)).trans h.ticks) hcur
    rw [List.map_cons, hnote]
    exact .step hne (fetch_sub_one periods hcur) hpark hrest

/-- From tick `t` on, each round is that of its tick. -/
theorem Player.Follows.plays (hp : p.Follows view) {a : σ} {t n : Nat}
    (h : (view a).Serves periods t (scheduled periods t))
    (hn : t + n + UInt32.size ≤ UInt64.size) :
    ∃ b, Plays p periods 4 n a
      ((List.range' t (n + 1)).flatMap fun u => (scheduled periods u).map (note u)) b := by
  have hlen (u : Nat) : ((scheduled periods u).map (note u)).length ≤ 4 := by
    rw [List.length_map]
    exact length_scheduled_le periods u
  induction n generalizing a t with
  | zero =>
    obtain ⟨b, hb, -⟩ := hp.rounds h hn
    refine ⟨b, ?_⟩
    rw [List.range'_succ, List.flatMap_cons, List.range'_zero, List.flatMap_nil, List.append_nil]
    exact .last hb (hlen t)
  | succ n ih =>
    obtain ⟨b, hb, hserves⟩ := hp.rounds h (by omega)
    have hroom : t + 1 < UInt64.size := by
      have hsize : 1 < UInt32.size := by decide
      omega
    obtain ⟨c, hc, ht⟩ := hp.advance b hserves.current (hserves.ticks ▸ hroom)
    obtain ⟨d, hd⟩ := ih ((hserves.ticked hroom).congr ht) (by omega)
    refine ⟨d, ?_⟩
    rw [List.range'_succ, List.flatMap_cons]
    exact .more hb (hlen t) hc hd

/-- **Periodic tasks never drift.** From a freshly filled table on, for any four periods and as long
as the clock keeps a sleep's length away from its end: nothing faults; every round is over, the idle
slot being current, after at most four steps; and the log has, for each tick from the first to the
last, the tasks whose stride divides it, in ascending order, and nothing else. This is so for a
scheduler by itself, and for a kernel with any signal and whatever pointers are left at the
switches. -/
theorem play_eq_timetable (periods : Vector UInt32 4) (n : Nat)
    (hn : n + UInt32.size ≤ UInt64.size) (app : Application) :
    (∀ s₀ a₀, ∃ s a t, Scheduler.populate s₀ a₀ app = .ok (s, a) ∧
      Plays Scheduler.player periods 4 n s (timetable periods n) t ∧
      play Scheduler.player periods n s = .ok (timetable periods n) t) ∧
    ∀ (P : Type) [SwitchSignal P] (busy : UInt64 → Word) (idle : Word) (k₀ : Kernel P),
      k₀.populated = false →
      ∃ k l, Kernel.populate app k₀ = .ok (.ok ()) k ∧
        Plays (Kernel.player busy idle) periods 4 n k (timetable periods n) l ∧
        play (Kernel.player busy idle) periods n k = .ok (timetable periods n) l := by
  have hplays {σ : Type} {p : Player σ} {view : σ → Scheduler} (hp : p.Follows view) {a : σ}
      (ha : view a = .fresh app) : ∃ b, Plays p periods 4 n a (timetable periods n) b := by
    rw [timetable, List.range_eq_range']
    exact hp.plays (ha ▸ Scheduler.serves_fresh app periods) (by omega)
  constructor
  · intro s₀ a₀
    obtain ⟨t, ht⟩ := hplays Scheduler.follows_player (a := .fresh app) rfl
    exact ⟨_, _, t, Scheduler.populate_eq s₀ a₀ app, ht, ht.play_eq (by decide)⟩
  · intro P _ busy idle k₀ hk₀
    obtain ⟨l, hl⟩ :=
      hplays (Kernel.follows_player (P := P) busy idle) (a := k₀.filled app) rfl
    exact ⟨_, l, Kernel.populate_of_false hk₀ app, hl, hl.play_eq (by decide)⟩

/-- Four tasks: every other tick, every tick for want of a period, every third tick, and once. -/
def assorted : Vector UInt32 4 := #v[2, 0, 3, 4294967295]

theorem play_eq_timetable_assorted :
    6 + UInt32.size ≤ UInt64.size ∧ (Kernel.blank Latch.clear).populated = false ∧
    timetable assorted 6 =
      [(0, 1), (0, 2), (0, 3), (0, 4), (1, 2), (2, 1), (2, 2), (3, 2), (3, 3), (4, 1), (4, 2),
        (5, 2), (6, 1), (6, 2), (6, 3)] ∧
    (∃ s a t, Scheduler.populate .blank .zeroed .numbered = .ok (s, a) ∧
      play Scheduler.player assorted 6 s = .ok (timetable assorted 6) t) ∧
    ∃ k l, Kernel.populate .numbered (Kernel.blank Latch.clear) = .ok (.ok ()) k ∧
      play (Kernel.player (fun c => .number (16 * c.toUInt32)) .null) assorted 6 k =
        .ok (timetable assorted 6) l := by
  have hn : 6 + UInt32.size ≤ UInt64.size := by decide
  have hk : (Kernel.blank Latch.clear).populated = false := rfl
  obtain ⟨hs, hkernel⟩ := play_eq_timetable assorted 6 hn .numbered
  obtain ⟨s, a, t, hfill, -, hplay⟩ := hs .blank .zeroed
  obtain ⟨k, l, hfill', -, hplay'⟩ :=
    hkernel Latch (fun c => .number (16 * c.toUInt32)) .null _ hk
  exact ⟨hn, hk, by decide +kernel, ⟨s, a, t, hfill, hplay⟩, k, l, hfill', hplay'⟩

end Periodic
end RoundRobin

import RoundRobin.Scheduler.Selection

/-!
What the scheduler's operations leave behind, in closed form and field by field. An operation that
faults changes nothing, so one closed form for each operation that goes through says everything.
Main statements: `next_eq_idleSlot_iff` and `isCandidate_next`, the policy that every selection
follows.
-/

namespace RoundRobin

theorem Status.eq_blocked_iff (s : Status) : s = .blocked ↔ s ≠ .ready := by
  cases s <;> simp

/-- Two statuses are the same as soon as they agree on being ready. -/
theorem Status.eq_of_ready_iff {s t : Status} (h : s = .ready ↔ t = .ready) : s = t := by
  cases s with
  | ready => exact (h.mp rfl).symm
  | blocked =>
    cases t with
    | ready => exact h.mpr rfl
    | blocked => rfl

/-- Only a task that was asleep and is not due yet goes on sleeping. -/
theorem Record.wakeAt_status_eq_blocked_iff (r : Record) (now : UInt64) :
    (r.wakeAt now).status = .blocked ↔ r.status = .blocked ∧ now < r.wake := by
  rw [Status.eq_blocked_iff, Ne, wakeAt_status_eq_ready_iff, not_or, ← Ne,
    ← Status.eq_blocked_iff, UInt64.not_le]

/-- The next tick, if the clock has one. -/
theorem toNat_add_one {now : UInt64} (h : now.toNat + 1 < UInt64.size) :
    (now + 1).toNat = now.toNat + 1 := by
  rw [UInt64.toNat_add, UInt64.toNat_one]
  exact Nat.mod_eq_of_lt h

/-- The wake tick of a sleep of `n` ticks, if the clock has one. -/
theorem toNat_add_ticks {now : UInt64} {n : UInt32} (h : now.toNat + n.toNat < UInt64.size) :
    (now + n.toUInt64).toNat = now.toNat + n.toNat := by
  rw [UInt64.toNat_add, UInt32.toNat_toUInt64]
  exact Nat.mod_eq_of_lt h

namespace Scheduler

/-- The current slot. Its number is the current one whenever that names a slot. -/
def resident (s : Scheduler) : Slot := Fin.ofNat 5 s.current.toNat

theorem val_resident {s : Scheduler} (h : s.current.toNat < 5) :
    s.resident.val = s.current.toNat := Nat.mod_eq_of_lt h

theorem resident_eq {s : Scheduler} (h : s.current.toNat < 5) :
    s.resident = ⟨s.current.toNat, h⟩ := Fin.ext (val_resident h)

theorem resident_congr {s t : Scheduler} (h : s.current = t.current) : s.resident = t.resident :=
  congrArg (fun c : UInt64 => Fin.ofNat 5 c.toNat) h

theorem isIdle_iff {s : Scheduler} (h : s.current.toNat < 5) :
    s.isIdle = true ↔ s.resident = idleSlot := by
  rw [isIdle, decide_eq_true_iff, Fin.ext_iff, val_resident h]

theorem toNat_slot (j : Slot) : j.val.toUInt64.toNat = j.val := by
  rw [Nat.toUInt64_eq, UInt64.toNat_ofNat']
  exact Nat.mod_eq_of_lt (by omega)

theorem record_eq (s : Scheduler) (j : Slot) : s.record j = getElem s.tasks j.val j.lt := rfl

theorem get_set (tasks : Vector Record 5) (i j : Slot) (r : Record) :
    (tasks.set i r i.lt).get j = if i = j then r else tasks.get j := by
  have h (v : Vector Record 5) : v.get j = v[j.val] := rfl
  simp only [h, Vector.getElem_set, Fin.ext_iff]

@[simp] theorem record_setRecord (s : Scheduler) (i j : Slot) (r : Record) :
    (s.setRecord i r).record j = if i = j then r else s.record j := get_set s.tasks i j r

/-- An update of one record, seen from any slot. -/
theorem record_update (s : Scheduler) (i j : Slot) (f : Record → Record) :
    (s.setRecord i (f (s.record i))).record j = if i = j then f (s.record j) else s.record j := by
  rw [record_setRecord]
  split
  · next h => rw [h]
  · rfl

/-! ## Selection -/

theorem mem_rotation (n : Nat) (j : Slot) : j ∈ rotation n := by
  rw [rotation, List.mem_map]
  refine ⟨Fin.ofNat 5 (j.val + 4 * (n + 1)), List.mem_finRange _, Fin.ext ?_⟩
  simp only [Fin.ofNat]
  omega

theorem isCandidate_iff (s : Scheduler) (j : Slot) :
    s.isCandidate j = true ↔ j ≠ idleSlot ∧ (s.record j).status = .ready := by
  simp [isCandidate, Record.isReady]

theorem next_cases (s : Scheduler) :
    (s.next = idleSlot ∧ ∀ j, ¬ s.isCandidate j = true) ∨ s.isCandidate s.next = true := by
  rw [next]
  cases h : (rotation s.current.toNat).find? s.isCandidate with
  | none => exact .inl ⟨rfl, fun j => List.find?_eq_none.mp h j (mem_rotation _ j)⟩
  | some j => exact .inr (List.find?_some h)

theorem isCandidate_next {s : Scheduler} (h : s.next ≠ idleSlot) :
    s.isCandidate s.next = true := by
  rcases next_cases s with ⟨hn, -⟩ | hc
  · exact absurd hn h
  · exact hc

theorem next_eq_idleSlot_iff (s : Scheduler) :
    s.next = idleSlot ↔ ∀ j, j ≠ idleSlot → (s.record j).status = .blocked := by
  constructor
  · intro h j hj
    rcases next_cases s with ⟨-, hn⟩ | hc
    · cases hs : (s.record j).status with
      | ready => exact absurd ((isCandidate_iff s j).mpr ⟨hj, hs⟩) (hn j)
      | blocked => rfl
    · exact absurd h ((isCandidate_iff s _).mp hc).1
  · intro h
    rcases next_cases s with ⟨hn, -⟩ | hc
    · exact hn
    · obtain ⟨hj, hs⟩ := (isCandidate_iff s _).mp hc
      rw [h _ hj] at hs
      cases hs

/-- Whose turn is next depends on the current slot and on who is ready. -/
theorem next_congr {s t : Scheduler} (hc : s.current = t.current)
    (hs : ∀ j, (s.record j).status = (t.record j).status) : s.next = t.next := by
  have hcand : s.isCandidate = t.isCandidate := by
    funext j
    rw [Bool.eq_iff_iff, isCandidate_iff, isCandidate_iff, hs]
  rw [next, next, hc, hcand]

/-- A selected slot is ready, provided that the idle one is. -/
theorem status_next {s : Scheduler} (h : (s.record idleSlot).status = .ready) :
    (s.record s.next).status = .ready := by
  by_cases hn : s.next = idleSlot
  · rw [hn]
    exact h
  · exact ((isCandidate_iff s _).mp (isCandidate_next hn)).2

/-! ## What a tick leaves -/

def ticked (s : Scheduler) : Scheduler := { s with ticks := s.ticks + 1 }.wakeDue

theorem tick_eq {s : Scheduler} (h : s.ticks.toNat + 1 < UInt64.size) : tick s = .ok () s.ticked :=
  tick_of_lt h

@[simp] theorem record_wakeDue (s : Scheduler) (j : Slot) :
    s.wakeDue.record j = if j = idleSlot then s.record j else (s.record j).wakeAt s.ticks := by
  simp [record_eq, wakeDue, Fin.ext_iff]

@[simp] theorem record_ticked (s : Scheduler) (j : Slot) :
    s.ticked.record j = if j = idleSlot then s.record j else (s.record j).wakeAt (s.ticks + 1) :=
  record_wakeDue { s with ticks := s.ticks + 1 } j

theorem stackPointer_ticked (s : Scheduler) (j : Slot) :
    (s.ticked.record j).stackPointer = (s.record j).stackPointer := by
  rw [record_ticked]
  split
  · rfl
  · exact Record.wakeAt_stackPointer _ _

theorem toNat_ticks_ticked {s : Scheduler} (h : s.ticks.toNat + 1 < UInt64.size) :
    s.ticked.ticks.toNat = s.ticks.toNat + 1 := toNat_add_one h

/-! ## What a sleep leaves -/

def slept (s : Scheduler) (n : UInt32) : Scheduler :=
  s.setRecord s.resident ((s.record s.resident).blockedUntil (s.ticks + n.toUInt64))

theorem sleep_eq {s : Scheduler} {n : UInt32} (hc : s.current.toNat < 5)
    (hi : s.resident ≠ idleSlot) (hn : s.ticks.toNat + n.toNat < UInt64.size) :
    sleep n s = .ok true (s.slept n) := by
  have hf : s.isIdle = false := Bool.eq_false_iff.mpr fun h => hi ((isIdle_iff hc).mp h)
  rw [sleep_of_lt hf hn hc, slept, resident_eq hc]

@[simp] theorem record_slept (s : Scheduler) (n : UInt32) (j : Slot) :
    (s.slept n).record j = if s.resident = j then
      (s.record j).blockedUntil (s.ticks + n.toUInt64) else s.record j :=
  record_update s s.resident j (·.blockedUntil (s.ticks + n.toUInt64))

theorem stackPointer_slept (s : Scheduler) (n : UInt32) (j : Slot) :
    ((s.slept n).record j).stackPointer = (s.record j).stackPointer := by
  rw [record_slept]
  split <;> rfl

/-! ## What a swap leaves -/

/-- The table once the outgoing task's pointer is kept. -/
def saved (s : Scheduler) (w : Word) : Scheduler :=
  s.setRecord s.resident { s.record s.resident with stackPointer := w }

def swapped (s : Scheduler) (w : Word) : Scheduler :=
  { s.saved w with current := s.next.val.toUInt64 }

@[simp] theorem record_saved (s : Scheduler) (w : Word) (j : Slot) :
    (s.saved w).record j =
      if s.resident = j then { s.record j with stackPointer := w } else s.record j :=
  record_update s s.resident j ({ · with stackPointer := w })

/-- Keeping a pointer does not change whose turn it is. -/
theorem next_saved (s : Scheduler) (w : Word) : (s.saved w).next = s.next := by
  refine next_congr rfl fun j => ?_
  rw [record_saved]
  split <;> rfl

theorem swap_eq {s : Scheduler} (h : s.current.toNat < 5) (w : Word) :
    swap w s = .ok ((s.swapped w).record s.next).stackPointer (s.swapped w) := by
  have ht : s.saved w =
      s.setRecord ⟨s.current.toNat, h⟩
        { s.record ⟨s.current.toNat, h⟩ with stackPointer := w } := by
    rw [saved, resident_eq h]
  have hs := swap_of_lt h ht
  rw [next_saved] at hs
  exact hs

@[simp] theorem record_swapped (s : Scheduler) (w : Word) (j : Slot) :
    (s.swapped w).record j =
      if s.resident = j then { s.record j with stackPointer := w } else s.record j :=
  record_saved s w j

theorem status_swapped (s : Scheduler) (w : Word) (j : Slot) :
    ((s.swapped w).record j).status = (s.record j).status := by
  rw [record_swapped]
  split <;> rfl

@[simp] theorem toNat_current_swapped (s : Scheduler) (w : Word) :
    (s.swapped w).current.toNat = s.next.val := toNat_slot _

@[simp] theorem resident_swapped (s : Scheduler) (w : Word) : (s.swapped w).resident = s.next := by
  apply Fin.ext
  rw [val_resident (by simp), toNat_current_swapped]

end Scheduler
end RoundRobin

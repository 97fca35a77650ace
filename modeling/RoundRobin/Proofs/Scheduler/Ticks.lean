import RoundRobin.Proofs.Scheduler.Effect

/-!
A series of ticks. Every tick scans the table for tasks that are due; since a task stays due until a
scan finds it, one scan after the last tick does the work of all the scans before it. Main
statement: `one_scan_makes_up`.
-/

namespace RoundRobin

theorem Record.wakeAt_of_ready {r : Record} (h : r.status = .ready) (now : UInt64) :
    r.wakeAt now = r := by
  simp [wakeAt, dueAt, h]

/-- A scan leaves nothing that an earlier one would have changed. -/
theorem Record.wakeAt_wakeAt (r : Record) {now later : UInt64} (h : now ≤ later) :
    (r.wakeAt now).wakeAt later = r.wakeAt later := by
  by_cases hd : r.dueAt now = true
  · have hwoken : r.wakeAt now = { r with status := .ready } := if_pos hd
    simp only [dueAt, decide_eq_true_eq] at hd
    have hlater : r.dueAt later = true := by
      simp only [dueAt, decide_eq_true_eq]
      exact ⟨hd.1, UInt64.le_trans hd.2 h⟩
    rw [wakeAt_of_ready (by rw [hwoken]), hwoken]
    exact (if_pos hlater).symm
  · rw [show r.wakeAt now = r from if_neg hd]

namespace Scheduler

theorem eq_of_record {s t : Scheduler} (hr : ∀ j, s.record j = t.record j)
    (hc : s.current = t.current) (ht : s.ticks = t.ticks) : s = t := by
  rcases s with ⟨tasks, current, ticks⟩
  rcases t with ⟨tasks', current', ticks'⟩
  have htasks : tasks = tasks' := Vector.ext fun j hj => hr ⟨j, hj⟩
  rw [mk.injEq]
  exact ⟨htasks, hc, ht⟩

/-- The scheduler when `n` ticks have been counted without a scan. -/
def elapsed (s : Scheduler) (n : Nat) : Scheduler := { s with ticks := s.ticks + UInt64.ofNat n }

theorem toNat_ticks_elapsed {s : Scheduler} {n : Nat} (h : s.ticks.toNat + n < UInt64.size) :
    (s.elapsed n).ticks.toNat = s.ticks.toNat + n := by
  have hn : (UInt64.ofNat n).toNat = n := UInt64.toNat_ofNat_of_lt' (by omega)
  rw [elapsed, UInt64.toNat_add, hn]
  exact Nat.mod_eq_of_lt h

theorem ticks_elapsed_succ (s : Scheduler) (n : Nat) :
    (s.ticked.elapsed n).ticks = (s.elapsed (n + 1)).ticks := by
  have hs : s.ticked.ticks = s.ticks + 1 := rfl
  rw [elapsed, elapsed, hs, UInt64.ofNat_add, UInt64.add_assoc, UInt64.add_comm 1]
  rfl

/-- The scan of the first tick is made up by the scan after the last. -/
theorem wakeDue_elapsed_ticked {s : Scheduler} {n : Nat}
    (h : s.ticks.toNat + (n + 1) < UInt64.size) :
    (s.ticked.elapsed n).wakeDue = (s.elapsed (n + 1)).wakeDue := by
  have hticks := ticks_elapsed_succ s n
  have hle : s.ticks + 1 ≤ (s.elapsed (n + 1)).ticks := by
    rw [UInt64.le_iff_toNat_le, toNat_add_one (by omega), toNat_ticks_elapsed h]
    omega
  refine eq_of_record (fun j => ?_) rfl hticks
  rw [record_wakeDue, record_wakeDue, hticks]
  have hj : (s.ticked.elapsed n).record j = s.ticked.record j := rfl
  have hj' : (s.elapsed (n + 1)).record j = s.record j := rfl
  rw [hj, hj', record_ticked]
  by_cases hi : j = idleSlot
  · simp only [if_pos hi]
  · simp only [if_neg hi, Record.wakeAt_wakeAt _ hle]

/-- The induction is on the ticks after the first one; each of them is taken by the scheduler that
the tick before has left. -/
theorem times_tick_eq {s : Scheduler} {n : Nat} (h : s.ticks.toNat + (n + 1) < UInt64.size) :
    Action.times (n + 1) tick s = .ok () (s.elapsed (n + 1)).wakeDue := by
  induction n generalizing s with
  | zero => exact Action.bind_of_ok (tick_eq h)
  | succ n ih =>
    have hone : s.ticks.toNat + 1 < UInt64.size := by omega
    have hnext : s.ticked.ticks.toNat = s.ticks.toNat + 1 := toNat_ticks_ticked hone
    rw [Action.times, Action.bind_of_ok (tick_eq hone), ih (by omega), wakeDue_elapsed_ticked h]

/-- What a scan leaves of every record but the status. -/
theorem wakeDue_fields (s : Scheduler) (j : Slot) :
    (s.wakeDue.record j).wake = (s.record j).wake ∧
      (s.wakeDue.record j).stackPointer = (s.record j).stackPointer ∧
      (s.wakeDue.record j).entry = (s.record j).entry := by
  rw [record_wakeDue]
  split
  · exact ⟨rfl, rfl, rfl⟩
  · exact ⟨Record.wakeAt_wake _ _, Record.wakeAt_stackPointer _ _, Record.wakeAt_entry _ _⟩

/-- **Missed scans are made up.** Whatever the table holds and wherever the clock stands, `n` ticks
go through and leave the scheduler that a single scan leaves once `n` has been added to the clock.
The application tasks that are ready then are those that were ready before and those whose wake tick
is not ahead of the clock; the record of the idle slot is as it was, and so are every wake tick,
saved pointer and entry point, and the current slot. -/
theorem one_scan_makes_up (s : Scheduler) (n : Nat) (hn : 1 ≤ n)
    (h : s.ticks.toNat + n < UInt64.size) :
    let t : Scheduler := { s with ticks := s.ticks + UInt64.ofNat n }
    Action.times n tick s = .ok () t.wakeDue ∧
    t.wakeDue.ticks.toNat = s.ticks.toNat + n ∧
    (∀ j, j ≠ idleSlot → ((t.wakeDue.record j).status = .ready ↔
      (s.record j).status = .ready ∨ (s.record j).wake.toNat ≤ s.ticks.toNat + n)) ∧
    t.wakeDue.record idleSlot = s.record idleSlot ∧
    (∀ j, (t.wakeDue.record j).wake = (s.record j).wake ∧
      (t.wakeDue.record j).stackPointer = (s.record j).stackPointer ∧
      (t.wakeDue.record j).entry = (s.record j).entry) ∧
    t.wakeDue.current = s.current := by
  intro t
  obtain ⟨k, rfl⟩ : ∃ k, n = k + 1 := ⟨n - 1, by omega⟩
  have hticks : t.ticks.toNat = s.ticks.toNat + (k + 1) := toNat_ticks_elapsed h
  refine ⟨times_tick_eq h, hticks, fun j hj => ?_, ?_, fun j => wakeDue_fields t j, rfl⟩
  · rw [record_wakeDue, if_neg hj, Record.wakeAt_status_eq_ready_iff, UInt64.le_iff_toNat_le,
      hticks]
    rfl
  · rw [record_wakeDue, if_pos rfl]
    rfl

/-- The idle task is asleep, the second and the third are long overdue or come due on the way, and
the fourth is not due yet. -/
theorem one_scan_makes_up_overdue :
    let s : Scheduler := ⟨#v[⟨.null, 3, .blocked, .routine 0⟩, ⟨.null, 900, .ready, .routine 1⟩,
      ⟨.null, 5, .blocked, .routine 2⟩, ⟨.null, 102, .blocked, .routine 3⟩,
      ⟨.null, 104, .blocked, .routine 4⟩], 2, 100⟩
    let t : Scheduler := { s with ticks := s.ticks + UInt64.ofNat 3 }
    1 ≤ 3 ∧ s.ticks.toNat + 3 < UInt64.size ∧ Action.times 3 tick s = .ok () t.wakeDue ∧
    t.wakeDue.record idleSlot = ⟨.null, 3, .blocked, .routine 0⟩ ∧
    (t.wakeDue.record 1).status = .ready ∧ (t.wakeDue.record 2).status = .ready ∧
    (t.wakeDue.record 3).status = .ready ∧ ¬ (t.wakeDue.record 4).status = .ready := by
  intro s t
  have hroom : s.ticks.toNat + 3 < UInt64.size := by decide +zetaReduce
  obtain ⟨htimes, -, hready, hidle, -, -⟩ := one_scan_makes_up s 3 (by decide) hroom
  refine ⟨by decide, hroom, htimes, hidle, (hready 1 (by decide)).mpr (.inl rfl),
    (hready 2 (by decide)).mpr (.inr ?_), (hready 3 (by decide)).mpr (.inr ?_),
    fun h => absurd ((hready 4 (by decide)).mp h) ?_⟩
  · decide +zetaReduce
  · decide +zetaReduce
  · decide +zetaReduce

end Scheduler
end RoundRobin

import RoundRobin.Kernel.Operation
import RoundRobin.Proofs.Scheduler.Population

/-!
What every kernel operation leaves behind, in closed form, for any signal and then for the latch.
Main statements: the equations `after_populate` to `after_swap`, from which every fact about a run
of operations is derived, and `current_run`: the current slot exists in every run.
-/

namespace RoundRobin
namespace Kernel

variable {P : Type} {k : Kernel P}

def resident (k : Kernel P) : Slot := k.scheduler.resident

def record (k : Kernel P) (j : Slot) : Record := k.scheduler.record j

theorem val_resident (h : k.current.toNat < 5) : k.resident.val = k.current.toNat :=
  Scheduler.val_resident h

/-- The kernel whose task table has just been filled. -/
def filled (k : Kernel P) (app : Application) : Kernel P :=
  { k with scheduler := .fresh app, arena := k.arena.prepared app, populated := true }

def withScheduler (k : Kernel P) (s : Scheduler) : Kernel P := { k with scheduler := s }

theorem populate_of_false (h : k.populated = false) (app : Application) :
    populate app k = .ok (.ok ()) (k.filled app) := by
  simp only [populate, Action.get_bind, h, Scheduler.populate_eq]
  rfl

theorem populate_of_true (h : k.populated = true) (app : Application) :
    populate app k = .ok (.error .alreadyPopulated) k := by
  simp only [populate, Action.get_bind, h]
  rfl

theorem onScheduler_of_ok {α : Type} {a : Action Scheduler α} {r : α} {s : Scheduler}
    (h : a k.scheduler = .ok r s) : onScheduler a k = .ok r (k.withScheduler s) := by
  simp only [onScheduler, Action.on, h]
  rfl

theorem onScheduler_of_error {α : Type} {a : Action Scheduler α} {e : Fault}
    (h : a k.scheduler = .error e k.scheduler) : onScheduler a k = .error e k := by
  simp only [onScheduler, Action.on, h]

theorem swap_eq (h : k.current.toNat < 5) (w : Word) :
    swap w k = .ok ((k.scheduler.swapped w).record k.scheduler.next).stackPointer
      (k.withScheduler (k.scheduler.swapped w)) :=
  onScheduler_of_ok (Scheduler.swap_eq h w)

theorem record_swapped (k : Kernel P) (w : Word) (j : Slot) :
    (k.withScheduler (k.scheduler.swapped w)).record j =
      if k.resident = j then { k.record j with stackPointer := w } else k.record j :=
  Scheduler.record_swapped _ w j

theorem resident_swapped (k : Kernel P) (w : Word) :
    (k.withScheduler (k.scheduler.swapped w)).resident = k.scheduler.next :=
  Scheduler.resident_swapped _ w

section Signal

variable [SwitchSignal P]

def pended (k : Kernel P) : Kernel P := { k with signal := SwitchSignal.request k.signal }

theorem record_ticked (k : Kernel P) (j : Slot) :
    (k.withScheduler k.scheduler.ticked).pended.record j =
      if j = idleSlot then k.record j else (k.record j).wakeAt (k.now + 1) :=
  Scheduler.record_ticked _ j

theorem record_slept (k : Kernel P) (n : UInt32) (j : Slot) :
    (k.withScheduler (k.scheduler.slept n)).pended.record j =
      if k.resident = j then (k.record j).blockedUntil (k.now + n.toUInt64) else k.record j :=
  Scheduler.record_slept _ n j

theorem tick_eq (h : k.now.toNat + 1 < UInt64.size) :
    tick k = .ok () (k.withScheduler k.scheduler.ticked).pended :=
  Action.bind_of_ok (onScheduler_of_ok (Scheduler.tick_eq h))

theorem tick_of_le (h : UInt64.size ≤ k.now.toNat + 1) : tick k = .error .overflow k :=
  Action.bind_of_error (onScheduler_of_error (Scheduler.tick_of_le h))

theorem delay_of_idle (hc : k.current.toNat < 5) (hi : k.resident = idleSlot) (n : UInt32) :
    delay n k = .ok () k :=
  Action.bind_of_ok
    (onScheduler_of_ok (Scheduler.sleep_of_isIdle ((Scheduler.isIdle_iff hc).mpr hi) n))

theorem delay_eq {n : UInt32} (hc : k.current.toNat < 5) (hi : k.resident ≠ idleSlot)
    (hn : k.now.toNat + n.toNat < UInt64.size) :
    delay n k = .ok () (k.withScheduler (k.scheduler.slept n)).pended :=
  Action.bind_of_ok (onScheduler_of_ok (Scheduler.sleep_eq hc hi hn))

theorem delay_of_le {n : UInt32} (hc : k.current.toNat < 5) (hi : k.resident ≠ idleSlot)
    (hn : UInt64.size ≤ k.now.toNat + n.toNat) : delay n k = .error .overflow k := by
  have hf : k.scheduler.isIdle = false :=
    Bool.eq_false_iff.mpr fun h => hi ((Scheduler.isIdle_iff hc).mp h)
  exact Action.bind_of_error (onScheduler_of_error (Scheduler.sleep_of_overflow hf hn))

end Signal

/-! ## Operations on a latched kernel -/

variable {k : Kernel Latch}

theorem after_of_ok {o : Operation} {r : Reply} {k' : Kernel Latch}
    (h : perform o k = .ok r k') : k.after o = k' := by
  rw [after, Action.outcome_of_ok h]

theorem after_of_error {o : Operation} {e : Fault} {k' : Kernel Latch}
    (h : perform o k = .error e k') : k.after o = k' := by
  rw [after, Action.outcome_of_error h]

theorem after_populate (k : Kernel Latch) (app : Application) :
    k.after (.populate app) = if k.populated then k else k.filled app := by
  cases h : k.populated with
  | false => exact after_of_ok (Action.bind_of_ok (populate_of_false h app))
  | true => exact after_of_ok (Action.bind_of_ok (populate_of_true h app))

theorem after_tick (k : Kernel Latch) :
    k.after .tick =
      if k.now.toNat + 1 < UInt64.size then (k.withScheduler k.scheduler.ticked).pended
      else k := by
  split
  · next h => exact after_of_ok (Action.bind_of_ok (tick_eq h))
  · next h => exact after_of_error (Action.bind_of_error (tick_of_le (Nat.not_lt.mp h)))

theorem after_delay (hc : k.current.toNat < 5) (n : UInt32) :
    k.after (.delay n) = if k.resident ≠ idleSlot ∧ k.now.toNat + n.toNat < UInt64.size then
      (k.withScheduler (k.scheduler.slept n)).pended else k := by
  by_cases hi : k.resident = idleSlot
  · rw [if_neg fun h => h.1 hi]
    exact after_of_ok (Action.bind_of_ok (delay_of_idle hc hi n))
  · split
    · next h => exact after_of_ok (Action.bind_of_ok (delay_eq hc hi h.2))
    · next h =>
      have hn := Nat.not_lt.mp fun hn => h ⟨hi, hn⟩
      exact after_of_error (Action.bind_of_error (delay_of_le hc hi hn))

theorem perform_swap (hc : k.current.toNat < 5) (w : Word) :
    perform (.swap w) k =
      .ok (.incoming ((k.scheduler.swapped w).record k.scheduler.next).stackPointer)
        (k.withScheduler (k.scheduler.swapped w)) :=
  Action.bind_of_ok (swap_eq hc w)

theorem after_swap (hc : k.current.toNat < 5) (w : Word) :
    k.after (.swap w) = k.withScheduler (k.scheduler.swapped w) :=
  after_of_ok (perform_swap hc w)

/-- The ticks after `n` earlier ones, counted from the first operation on. -/
theorem add_count_tick_cons (n : Nat) (o : Operation) (os : List Operation) :
    n + (o :: os).count .tick = n + (if o = .tick then 1 else 0) + os.count .tick := by
  rw [List.count_cons]
  simp only [beq_iff_eq]
  omega

/-! ## The current slot exists, and the table stays filled -/

theorem current_after_tick (k : Kernel Latch) : (k.after .tick).current = k.current := by
  rw [after_tick]
  split <;> rfl

theorem current_after_delay (hc : k.current.toNat < 5) (n : UInt32) :
    (k.after (.delay n)).current = k.current := by
  rw [after_delay hc]
  split <;> rfl

theorem current_after (hc : k.current.toNat < 5) (o : Operation) :
    (k.after o).current.toNat < 5 := by
  cases o with
  | populate app =>
    rw [after_populate]
    split
    · exact hc
    · exact Scheduler.current_fresh app
  | tick =>
    rw [current_after_tick]
    exact hc
  | delay n =>
    rw [current_after_delay hc]
    exact hc
  | request => exact hc
  | take => exact hc
  | swap w =>
    rw [after_swap hc]
    exact (Scheduler.toNat_current_swapped _ w).symm ▸ k.scheduler.next.isLt

theorem current_run (hc : k.current.toNat < 5) (os : List Operation) :
    (k.run os).current.toNat < 5 := by
  induction os generalizing k with
  | nil => exact hc
  | cons o os ih => exact ih (current_after hc o)

/-- A filled table stays filled. -/
theorem populated_after (hc : k.current.toNat < 5) (hp : k.populated = true) (o : Operation) :
    (k.after o).populated = true := by
  cases o with
  | populate app => rw [after_populate, if_pos hp, hp]
  | tick =>
    rw [after_tick]
    split <;> exact hp
  | delay n =>
    rw [after_delay hc]
    split <;> exact hp
  | request => exact hp
  | take => exact hp
  | swap w =>
    rw [after_swap hc]
    exact hp

theorem populated_run (hc : k.current.toNat < 5) (hp : k.populated = true)
    (os : List Operation) : (k.run os).populated = true := by
  induction os generalizing k with
  | nil => exact hp
  | cons o os ih => exact ih (current_after hc o) (populated_after hc hp o)

theorem current_blank (signal : P) : (blank signal).current.toNat < 5 := by
  rw [show (blank signal).current.toNat = 1 from rfl]
  decide

/-- A kernel whose table is filled after some earlier operations. -/
def primed (before : List Operation) (app : Application) : Kernel Latch :=
  (blank Latch.clear).run (before ++ [.populate app])

/-- Nothing of the scheduler remembers the operations before the table is filled. -/
theorem primed_eq {before : List Operation}
    (h : ((blank Latch.clear).run before).populated = false) (app : Application) :
    primed before app = ((blank Latch.clear).run before).filled app := by
  simp only [primed, run_append, run_cons, run_nil, after_populate, h]
  rfl

theorem record_filled (k : Kernel P) (app : Application) (j : Slot) :
    (k.filled app).record j = .fresh (app.bound j) (firstPointer j) :=
  Scheduler.record_fresh app j

end Kernel
end RoundRobin

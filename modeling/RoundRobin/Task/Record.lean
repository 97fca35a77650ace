import RoundRobin.Word

/-!
What the task table keeps about one slot. A task is ready, or blocked until the clock has reached
its wake tick; while it does not run, its saved stack pointer leads to its context.
-/

namespace RoundRobin

inductive Status where
  | ready
  | blocked
  deriving DecidableEq, Repr

structure Record where
  stackPointer : Word
  wake : UInt64
  status : Status
  entry : Entry
  deriving DecidableEq, Repr

namespace Record

/-- The record of a slot that has no task yet. -/
def vacant : Record := ⟨.null, 0, .ready, .unassigned⟩

instance : Inhabited Record := ⟨vacant⟩

/-- The record of a task that starts at `e` from the context at `sp`. -/
def fresh (e : Entry) (sp : Word) : Record := ⟨sp, 0, .ready, e⟩

def blockedUntil (r : Record) (wake : UInt64) : Record :=
  { r with wake, status := .blocked }

def isReady (r : Record) : Bool := r.status = .ready

/-- A blocked task is due once the clock has reached or passed its wake tick. -/
def dueAt (r : Record) (now : UInt64) : Bool := r.status = .blocked ∧ r.wake ≤ now

/-- The record at tick `now`: ready if it was ready or is due. -/
def wakeAt (r : Record) (now : UInt64) : Record :=
  if r.dueAt now then { r with status := .ready } else r

@[simp] theorem wakeAt_stackPointer (r : Record) (now : UInt64) :
    (r.wakeAt now).stackPointer = r.stackPointer := by
  unfold wakeAt; split <;> rfl

@[simp] theorem wakeAt_wake (r : Record) (now : UInt64) : (r.wakeAt now).wake = r.wake := by
  unfold wakeAt; split <;> rfl

@[simp] theorem wakeAt_entry (r : Record) (now : UInt64) : (r.wakeAt now).entry = r.entry := by
  unfold wakeAt; split <;> rfl

theorem wakeAt_status_eq_ready_iff (r : Record) (now : UInt64) :
    (r.wakeAt now).status = .ready ↔ r.status = .ready ∨ r.wake ≤ now := by
  rcases r with ⟨sp, wake, status, e⟩
  cases status <;> by_cases h : wake ≤ now <;> simp [wakeAt, dueAt, h]

end Record
end RoundRobin

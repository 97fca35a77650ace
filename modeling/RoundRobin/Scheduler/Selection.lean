import RoundRobin.Scheduler.Basic

/-!
Round robin. The slots are tried in cyclic order from the one after the current slot, the current
slot last; the first ready application task is selected, and the idle slot if there is none.
-/

namespace RoundRobin
namespace Scheduler

/-- All slots in cyclic order from the one after number `n`. -/
def rotation (n : Nat) : List Slot :=
  (List.finRange 5).map fun k => Fin.ofNat 5 (n + 1 + k.val)

def isCandidate (s : Scheduler) (slot : Slot) : Bool :=
  slot ≠ idleSlot ∧ (s.record slot).isReady

/-- The slot whose turn it is after the current one. -/
def next (s : Scheduler) : Slot :=
  ((rotation s.current.toNat).find? s.isCandidate).getD idleSlot

/-- Passes the turn on. The search starts at the number after the current one, which must exist. -/
def select : Action Scheduler Slot := do
  let s ← get
  let _ ← ofExcept (addExact s.current 1)
  set { s with current := s.next.val.toUInt64 }
  return s.next

/-- Keeps the outgoing task's stack pointer, passes the turn on and hands out the incoming task's
stack pointer. -/
def swap (outgoing : Word) : Action Scheduler Word := do
  let s ← get
  let slot ← ofExcept (position 5 s.current)
  set (s.setRecord slot { s.record slot with stackPointer := outgoing })
  let incoming ← select
  return ((← get).record incoming).stackPointer

theorem select_of_lt {s : Scheduler} (h : s.current.toNat + 1 < UInt64.size) :
    select s = .ok s.next { s with current := s.next.val.toUInt64 } := by
  have hs : addExact s.current 1 = .ok (s.current + 1) := addExact_of_lt h
  simp only [select, Action.get_bind, hs]
  rfl

theorem select_of_le {s : Scheduler} (h : UInt64.size ≤ s.current.toNat + 1) :
    select s = .error .overflow s := by
  have hs : addExact s.current 1 = .error .overflow := addExact_of_le h
  simp only [select, Action.get_bind, hs]
  rfl

/-- The pointer is kept before the next task is selected, so a task that is selected again gets the
pointer that it has just left. -/
theorem swap_of_lt {s t : Scheduler} {w : Word} (h : s.current.toNat < 5)
    (ht : t = s.setRecord ⟨s.current.toNat, h⟩
      { s.record ⟨s.current.toNat, h⟩ with stackPointer := w }) :
    swap w s = .ok (t.record t.next).stackPointer { t with current := t.next.val.toUInt64 } := by
  have hc : t.current.toNat + 1 < UInt64.size := by
    have : t.current = s.current := by rw [ht, setRecord]
    rw [this]
    exact Nat.lt_of_le_of_lt (Nat.succ_le_of_lt h) (by decide)
  simp only [swap, Action.get_bind, position_of_lt h, Action.ofExcept_ok_bind, ← ht,
    Action.set_bind, Action.bind_of_ok (select_of_lt hc)]
  rfl

theorem swap_of_le {s : Scheduler} {w : Word} (h : 5 ≤ s.current.toNat) :
    swap w s = .error (.outOfBounds 5 s.current.toNat) s := by
  simp only [swap, Action.get_bind, position_of_le h]
  rfl

end Scheduler
end RoundRobin

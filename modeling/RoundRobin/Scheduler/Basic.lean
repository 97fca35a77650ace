import RoundRobin.Memory.Arena
import RoundRobin.Task.Application
import RoundRobin.Task.Record

/-!
The scheduler's state, how it is filled and what time does to it. Filling gives every slot its entry
point, a first context at the top of its region, and a fresh record; nothing of the table's former
contents is left. Every tick wakes the tasks that are due, and the running task may put itself to
sleep. The number of the current slot is a plain 64-bit word, so that the operations also say what
happens when it names no slot.
-/

namespace RoundRobin

structure Scheduler where
  tasks : Vector Record 5
  current : UInt64
  ticks : UInt64
  deriving DecidableEq

namespace Scheduler

/-- No slot has a task yet; the first slot counts as the current one. -/
def blank : Scheduler := ⟨.replicate 5 .vacant, firstSlot.val.toUInt64, 0⟩

instance : Inhabited Scheduler := ⟨blank⟩

def isIdle (s : Scheduler) : Bool := s.current.toNat = idleSlot.val

def record (s : Scheduler) (slot : Slot) : Record := s.tasks.get slot

def setRecord (s : Scheduler) (slot : Slot) (r : Record) : Scheduler :=
  { s with tasks := s.tasks.set slot r slot.lt }

def currentRecord (s : Scheduler) : Except Fault Record := do
  let slot ← position 5 s.current
  return s.record slot

/-- Fills the given slots one after the other. -/
def bindSlots (app : Application) :
    List Slot → Vector Record 5 × Arena → Except Fault (Vector Record 5 × Arena)
  | [], table => .ok table
  | slot :: slots, (tasks, arena) => do
    let entry ← app.entry slot.val.toUInt64
    let (arena, sp) := arena.prepare slot entry
    bindSlots app slots (tasks.set slot (.fresh entry sp) slot.lt, arena)

/-- The scheduler and the stacks as they are when the first task is launched. -/
def populate (s : Scheduler) (arena : Arena) (app : Application) :
    Except Fault (Scheduler × Arena) := do
  let (tasks, arena) ← bindSlots app (List.finRange 5) (s.tasks, arena)
  return (⟨tasks, firstSlot.val.toUInt64, 0⟩, arena)

/-- Makes every due application task ready. The idle slot is left alone. -/
def wakeDue (s : Scheduler) : Scheduler :=
  { s with tasks := s.tasks.mapIdx fun slot r =>
      if slot = idleSlot.val then r else r.wakeAt s.ticks }

/-- Counts one tick and wakes the tasks that are due then. -/
def tick : Action Scheduler Unit := do
  let s ← get
  let ticks ← ofExcept (addExact s.ticks 1)
  set { s with ticks }.wakeDue

/-- Blocks the current task for `ticks` ticks. The answer tells whether it was one that may
block. -/
def sleep (ticks : UInt32) : Action Scheduler Bool := do
  let s ← get
  if s.isIdle then
    return false
  let wake ← ofExcept (addExact s.ticks ticks.toUInt64)
  let slot ← ofExcept (position 5 s.current)
  set (s.setRecord slot ((s.record slot).blockedUntil wake))
  return true

theorem tick_of_lt {s : Scheduler} (h : s.ticks.toNat + 1 < UInt64.size) :
    tick s = .ok () { s with ticks := s.ticks + 1 }.wakeDue := by
  have hs : addExact s.ticks 1 = .ok (s.ticks + 1) := addExact_of_lt h
  simp only [tick, Action.get_bind, hs]
  rfl

theorem tick_of_le {s : Scheduler} (h : UInt64.size ≤ s.ticks.toNat + 1) :
    tick s = .error .overflow s := by
  have hs : addExact s.ticks 1 = .error .overflow := addExact_of_le h
  simp only [tick, Action.get_bind, hs]
  rfl

theorem sleep_of_isIdle {s : Scheduler} (h : s.isIdle = true) (n : UInt32) :
    sleep n s = .ok false s := by
  simp only [sleep, Action.get_bind, h]
  rfl

theorem sleep_of_lt {s : Scheduler} {n : UInt32} (hi : s.isIdle = false)
    (hn : s.ticks.toNat + n.toNat < UInt64.size) (hc : s.current.toNat < 5) :
    sleep n s = .ok true (s.setRecord ⟨s.current.toNat, hc⟩
      ((s.record ⟨s.current.toNat, hc⟩).blockedUntil (s.ticks + n.toUInt64))) := by
  have hs : addExact s.ticks n.toUInt64 = .ok (s.ticks + n.toUInt64) :=
    addExact_of_lt (by simpa using hn)
  simp only [sleep, Action.get_bind, hi, hs, position_of_lt hc]
  rfl

/-- The sum is formed before the slot is looked up. -/
theorem sleep_of_overflow {s : Scheduler} {n : UInt32} (hi : s.isIdle = false)
    (hn : UInt64.size ≤ s.ticks.toNat + n.toNat) : sleep n s = .error .overflow s := by
  have hs : addExact s.ticks n.toUInt64 = .error .overflow :=
    addExact_of_le (by simpa using hn)
  simp only [sleep, Action.get_bind, hi, hs]
  rfl

theorem sleep_of_outOfBounds {s : Scheduler} {n : UInt32} (hi : s.isIdle = false)
    (hn : s.ticks.toNat + n.toNat < UInt64.size) (hc : 5 ≤ s.current.toNat) :
    sleep n s = .error (.outOfBounds 5 s.current.toNat) s := by
  have hs : addExact s.ticks n.toUInt64 = .ok (s.ticks + n.toUInt64) :=
    addExact_of_lt (by simpa using hn)
  simp only [sleep, Action.get_bind, hi, hs, position_of_le hc]
  rfl

end Scheduler
end RoundRobin

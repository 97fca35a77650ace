import RoundRobin.Periodic
import RoundRobin.Scheduler.Selection

/-!
The kernel: the scheduler, the stacks of all slots and the signal through which a switch is asked
for. The task table is filled once. Whoever puts a task to sleep or lets a tick pass asks for a
switch; nobody but `swap` and `populate` changes the current slot. All that the kernel asks of the
processor is somewhere to leave a request for a switch; the simplest place is a latch.
-/

namespace RoundRobin

class SwitchSignal (P : Type) where
  /-- Leaves a request; a second one before the first is served changes nothing further. -/
  request : P → P

/-- A latch that remembers that a switch was asked for. -/
structure Latch where
  pending : Bool
  deriving DecidableEq, Repr

namespace Latch

def clear : Latch := ⟨false⟩

instance : SwitchSignal Latch where
  request _ := ⟨true⟩

end Latch

structure Kernel (P : Type) where
  scheduler : Scheduler
  populated : Bool
  arena : Arena
  signal : P

inductive SetupError where
  | alreadyPopulated
  deriving DecidableEq, Repr

def SetupError.message : SetupError → String
  | alreadyPopulated => "task table already initialized"

namespace Kernel

variable {P : Type}

/-- A kernel before its task table is filled. -/
def blank (signal : P) : Kernel P := ⟨.blank, false, .zeroed, signal⟩

def now (k : Kernel P) : UInt64 := k.scheduler.ticks

def current (k : Kernel P) : UInt64 := k.scheduler.current

/-- The status of the task in a slot, if there is such a slot. -/
def status? (k : Kernel P) (slot : Nat) : Option Status :=
  k.scheduler.tasks[slot]?.map Record.status

def onScheduler {α : Type} (a : Action Scheduler α) : Action (Kernel P) α :=
  Action.on Kernel.scheduler (fun scheduler k => { k with scheduler }) a

/-- Fills the task table and the stacks, the first time it is tried. -/
def populate (app : Application) : Action (Kernel P) (Except SetupError Unit) := do
  let k ← get
  if k.populated then
    return .error .alreadyPopulated
  let (scheduler, arena) ← ofExcept (k.scheduler.populate k.arena app)
  set { k with scheduler, arena, populated := true }
  return .ok ()

/-- The incoming stack pointer for an outgoing one. -/
def swap (outgoing : Word) : Action (Kernel P) Word := onScheduler (Scheduler.swap outgoing)

variable [SwitchSignal P]

def pendSwitch : Action (Kernel P) Unit :=
  modify fun k => { k with signal := SwitchSignal.request k.signal }

/-- Puts the current task to sleep, unless it is the idle task. -/
def delay (ticks : UInt32) : Action (Kernel P) Unit := do
  if ← onScheduler (Scheduler.sleep ticks) then
    pendSwitch

/-- One tick of the clock. -/
def tick : Action (Kernel P) Unit := do
  onScheduler Scheduler.tick
  pendSwitch

/-- A kernel as the player of a periodic workload. A sleeping task leaves the stack pointer that
`busy` gives for its slot, a preempted idle task the pointer `idle`. -/
def player (busy : UInt64 → Word) (idle : Word) : Periodic.Player (Kernel P) where
  now := now
  current := current
  park period := do
    delay period
    let _ ← swap (busy (← get).current)
  advance := do
    tick
    let _ ← swap idle

end Kernel
end RoundRobin

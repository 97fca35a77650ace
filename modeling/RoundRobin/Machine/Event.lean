import RoundRobin.Machine.Launch
import RoundRobin.Machine.Switch

/-!
What can happen to the machine: exceptions, calls of the kernel, and whatever the running task does
to its registers and its stack. A task can neither push nor pop an odd number of words, nor move its
stack pointer out of the task stacks; such an event is refused. Nothing happens after a halt.

A tick is what its handler does to the kernel and nothing more. That the processor stacks registers
before the handler and unstacks them after it is taken to have no net effect, on the registers as on
the words below the stack pointer.
-/

namespace RoundRobin

inductive Event where
  | poke (r : MappedRegister) (v : UInt32)
  | setUp (s : Setup)
  | populate (app : Application)
  | start (app : Application)
  | clock
  | delay (ticks : UInt32)
  | setRegisters (g : Registers)
  | readRegisters
  | push (ws : List Word)
  | pop (n : Nat)
  | switch
  | fault
  | halt
  deriving DecidableEq, Repr

inductive Answer where
  | done
  | populated (result : Except SetupError Unit)
  | registers (g : Registers)
  | words (ws : List Word)
  | notTaken
  | refused
  | halted

namespace Machine

/-- The process stack pointer, if a move by `below` words down or `above` words up keeps it aligned
and within the task stacks. -/
def stackRoom (m : Machine) (below above : Nat) : Option Int :=
  match m.cpu.psp with
  | .address p =>
    if p % 2 = 0 ∧ (below + above) % 2 = 0 ∧ below ≤ p ∧ p + above ≤ 1280 then some p else none
  | _ => none

/-- Pushes words one after the other, the last one lowest. -/
def pushAll (m : Machine) (p : Int) : List Word → Machine
  | [] => m.setPsp (.address p)
  | w :: ws => (m.store (p - 1) w).pushAll (p - 1) ws

def push (ws : List Word) : Action Machine Answer := do
  let m ← get
  match m.stackRoom ws.length 0 with
  | some p =>
    set (m.pushAll p ws)
    return .done
  | none => return .refused

def pop (n : Nat) : Action Machine Answer := do
  let m ← get
  match m.stackRoom 0 n with
  | some p =>
    set (m.setPsp (.address (p + n)))
    return .words (m.loadAll p n)
  | none => return .refused

/-- The switch exception is taken if it is pending and interrupts are not masked; it then needs room
for the whole context. -/
def switch : Action Machine Answer := do
  let m ← get
  if !m.peripherals.isPending || m.cpu.masked then
    return .notTaken
  if (m.stackRoom contextWords 0).isNone then
    return .refused
  takeSwitch
  return .registers (← get).cpu.registers

def step : Event → Action Machine Answer
  | .poke r v => do modify (mapPeripherals · (·.poke v r)); return .done
  | .setUp s => do modify (mapPeripherals · (·.setUp s)); return .done
  | .populate app => return .populated (← onKernel (Kernel.populate app))
  | .start app => do
    if ← start app then
      return .registers (← get).cpu.registers
    return .halted
  | .clock => do onKernel Kernel.tick; return .done
  | .delay ticks => do onKernel (Kernel.delay ticks); return .done
  | .setRegisters g => do modify (mapRegisters · fun _ => g); return .done
  | .readRegisters => return .registers (← get).cpu.registers
  | .push ws => push ws
  | .pop n => pop n
  | .switch => switch
  | .fault => do halt; return .halted
  | .halt => do halt; return .halted

/-- The machine after a series of events. A halt ends the series. -/
def run (m : Machine) : List Event → Machine
  | [] => m
  | e :: es =>
    match (step e).outcome m with
    | (.ok .halted, m) => m
    | (_, m) => m.run es

end Machine
end RoundRobin

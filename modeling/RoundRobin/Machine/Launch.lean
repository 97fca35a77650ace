import RoundRobin.Machine.Instruction

/-!
Starting the scheduler: with interrupts masked, the task table is filled and the hardware set up;
then the first task is launched on its empty stack. If the table has been filled before, the
processor halts and nothing else has changed.
-/

namespace RoundRobin
namespace Machine

/-- Enters thread mode on the process stack at R0, with CONTROL from R1, and goes on at R2. -/
def launchCode : List Instruction :=
  [.msr .psp (.r 0),
   .msr .control (.r 1),
   .isb,
   .cpsie,
   .bx (.r 2)]

/-- Starts a task at `entry` on the empty stack at `top`, with nothing in its registers. -/
def launch (top entry : Word) : Action Machine Unit := do
  modify (setRegs · [.r 0, .r 1, .r 2] [top, .number processStackControl, entry])
  executeAll (pure ()) launchCode
  modify (mapRegisters · fun g => .atEntry g.pc)

/-- Stops the processor for good. -/
def halt : Action Machine Unit := modify (mask · true)

/-- Starts the scheduler; the answer tells whether it runs. -/
def start (app : Application) : Action Machine Bool := do
  modify (mask · true)
  match ← onKernel (Kernel.populate app) with
  | .error _ =>
    halt
    return false
  | .ok () =>
    modify (mapPeripherals · Peripherals.enableFaults)
    modify (mapPeripherals · Peripherals.rankExceptions)
    modify (mapPeripherals · Peripherals.startTimer)
    let s := (← get).kernel.scheduler
    let slot ← ofExcept (position 5 s.current)
    launch (.address (Arena.top slot)) (.entry (s.record slot).entry)
    return true

end Machine
end RoundRobin

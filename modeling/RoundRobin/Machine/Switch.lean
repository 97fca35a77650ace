import RoundRobin.Machine.Instruction

/-!
The context switch. Taking an exception, the processor saves eight registers on the process stack;
the handler saves the other eight below them, hands the stack pointer to the kernel, and restores
the other task's eight from the pointer that it gets back; returning from the exception, the
processor restores the rest from there.
-/

namespace RoundRobin

/-- The registers that the processor saves, lowest address first. -/
def hardwareSaved : List Reg := [.r 0, .r 1, .r 2, .r 3, .r 12, .lr, .pc, .xpsr]

/-- The registers that the handler saves, lowest address first. -/
def softwareSaved : List Reg := [.r 4, .r 5, .r 6, .r 7, .r 8, .r 9, .r 10, .r 11]

/-- The registers that a called function may leave with any contents. -/
def scratch : List Reg := [.r 1, .r 2, .r 3, .r 12, .lr]

namespace Machine

/-- The handler of the switch exception. The word above LR on the handlers' stack only keeps that
stack aligned. -/
def switchCode : List Instruction :=
  [.mrs (.r 0) .psp,
   .stmdb (.r 0) softwareSaved,
   .push [.r 0, .lr],
   .bl,
   .pop [.r 1, .lr],
   .ldmia (.r 0) softwareSaved,
   .msr .psp (.r 0),
   .bx .lr]

/-- The kernel's part of the switch as a called function: argument and result are in R0. Nothing
useful is left in the scratch registers. -/
def callSwap : Action Machine Unit := do
  let incoming ← onKernel (Kernel.swap ((← get).reg (.r 0)))
  modify fun m =>
    (m.setRegs scratch (scratch.map fun _ => .zero)).setReg (.r 0) incoming

/-- What the processor does when it takes an exception in thread mode. -/
def enterException : Action Machine Unit := do
  let m ← get
  let p ← ofExcept m.cpu.psp.offset
  let base := p - hardwareSaved.length
  set (((m.storeAll base (hardwareSaved.map m.reg)).setPsp (.address base)).setReg .lr
    (.number threadReturn))

/-- What the processor does when a handler has branched to the return code. -/
def leaveException : Action Machine Unit := do
  let m ← get
  if m.reg .pc ≠ .number threadReturn then
    throw (.badReturn (m.reg .pc))
  let p ← ofExcept m.cpu.psp.offset
  set ((m.setRegs hardwareSaved (m.loadAll p hardwareSaved.length)).setPsp
    (.address (p + hardwareSaved.length)))

/-- Takes the switch exception and returns from it. -/
def takeSwitch : Action Machine Unit := do
  modify (mapPeripherals · Peripherals.clearPending)
  enterException
  executeAll callSwap switchCode
  leaveException

end Machine
end RoundRobin

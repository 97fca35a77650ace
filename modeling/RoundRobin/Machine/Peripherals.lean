import RoundRobin.Kernel.Basic

/-!
The memory-mapped registers of the tick timer and of the system control block. Each access to one of
them is an operation of its own, and the hardware is set up by sequences of these; they change
exactly the bits that matter. Asking for a context switch sets the pending bit of the switch
exception, by writing the whole register.
-/

namespace RoundRobin

structure Peripherals where
  systCsr : UInt32
  systRvr : UInt32
  systCvr : UInt32
  icsr : UInt32
  shpr3 : UInt32
  shcsr : UInt32
  deriving DecidableEq, Repr

inductive MappedRegister where
  | systCsr
  | systRvr
  | systCvr
  | icsr
  | shpr3
  | shcsr
  deriving DecidableEq, Repr

def setBit (w i : UInt32) : UInt32 := w ||| (1 <<< i)

def clearBit (w i : UInt32) : UInt32 := w &&& ~~~(1 <<< i)

def testBit (w i : UInt32) : Bool := w &&& (1 <<< i) != 0

theorem testBit_clearBit (w i : UInt32) : testBit (clearBit w i) i = false := by
  rw [testBit, clearBit, UInt32.and_assoc, UInt32.not_and_self, UInt32.and_zero]
  rfl

/-- Byte `i` of a register counts from the lowest. -/
def setByte (w i b : UInt32) : UInt32 := (w &&& ~~~(0xFF <<< (8 * i))) ||| (b <<< (8 * i))

/-- Where the timer takes its clock from. -/
inductive ClockSource where
  | external
  | core
  deriving DecidableEq, Repr

/-- The exceptions whose priority is set. -/
inductive SystemHandler where
  | switch
  | tick
  deriving DecidableEq, Repr

/-- The byte of the priority register that belongs to an exception. -/
def SystemHandler.place : SystemHandler → UInt32
  | switch => 2
  | tick => 3

/-- The faults that can have a handler of their own. -/
inductive FaultClass where
  | memory
  | bus
  | usage
  deriving DecidableEq, Repr

/-- The bit that enables the handler of a fault. -/
def FaultClass.bit : FaultClass → UInt32
  | memory => 16
  | bus => 17
  | usage => 18

/-- The steps that prepare the hardware for multitasking, and the request for a switch. -/
inductive Setup where
  | timer
  | priorities
  | faults
  | request
  deriving DecidableEq, Repr

namespace Peripherals

def zeroed : Peripherals := ⟨0, 0, 0, 0, 0, 0⟩

def poke (p : Peripherals) (v : UInt32) : MappedRegister → Peripherals
  | .systCsr => { p with systCsr := v }
  | .systRvr => { p with systRvr := v }
  | .systCvr => { p with systCvr := v }
  | .icsr => { p with icsr := v }
  | .shpr3 => { p with shpr3 := v }
  | .shcsr => { p with shcsr := v }

def toList (p : Peripherals) : List UInt32 :=
  [p.systCsr, p.systRvr, p.systCvr, p.icsr, p.shpr3, p.shcsr]

/-! ## Single accesses -/

def setReload (p : Peripherals) (v : UInt32) : Peripherals := { p with systRvr := v }

def clearCurrent (p : Peripherals) : Peripherals := { p with systCvr := 0 }

def setClockSource (p : Peripherals) : ClockSource → Peripherals
  | .external => { p with systCsr := clearBit p.systCsr 2 }
  | .core => { p with systCsr := setBit p.systCsr 2 }

def enableInterrupt (p : Peripherals) : Peripherals := { p with systCsr := setBit p.systCsr 1 }

def enableCounter (p : Peripherals) : Peripherals := { p with systCsr := setBit p.systCsr 0 }

/-- Writes one byte of the priority register. -/
def setPriority (p : Peripherals) (h : SystemHandler) (b : UInt32) : Peripherals :=
  { p with shpr3 := setByte p.shpr3 h.place b }

def enable (p : Peripherals) (f : FaultClass) : Peripherals :=
  { p with shcsr := setBit p.shcsr f.bit }

/-- Sets the pending bit of the switch exception. The write is of the whole register, in which a
zero bit asks for nothing. -/
def setPending (p : Peripherals) : Peripherals := { p with icsr := setBit 0 28 }

/-! ## Setting up -/

/-- The timer runs from the reload value on the processor's clock and interrupts at zero. -/
def startTimer (p : Peripherals) : Peripherals :=
  p.setReload timerReload
    |>.clearCurrent
    |>.setClockSource .core
    |>.enableInterrupt
    |>.enableCounter

/-- The lowest priority. -/
def switchPriority : UInt32 := 0xFF

/-- One step above the lowest priority. -/
def tickPriority : UInt32 := 0xE0

/-- The tick may interrupt the switch, never the other way round. -/
def rankExceptions (p : Peripherals) : Peripherals :=
  p.setPriority .switch switchPriority
    |>.setPriority .tick tickPriority

/-- Memory, bus and usage faults get handlers of their own. -/
def enableFaults (p : Peripherals) : Peripherals :=
  p.enable .memory
    |>.enable .bus
    |>.enable .usage

def pendSwitch (p : Peripherals) : Peripherals := p.setPending

theorem startTimer_eq (p : Peripherals) :
    p.startTimer =
      { p with
        systRvr := timerReload
        systCvr := 0
        systCsr := setBit (setBit (setBit p.systCsr 2) 1) 0 } := by
  cases p
  rfl

theorem rankExceptions_eq (p : Peripherals) :
    p.rankExceptions =
      { p with shpr3 := setByte (setByte p.shpr3 2 switchPriority) 3 tickPriority } := rfl

theorem enableFaults_eq (p : Peripherals) :
    p.enableFaults = { p with shcsr := setBit (setBit (setBit p.shcsr 16) 17) 18 } := rfl

theorem pendSwitch_eq (p : Peripherals) : p.pendSwitch = { p with icsr := setBit 0 28 } := rfl

def isPending (p : Peripherals) : Bool := testBit p.icsr 28

def clearPending (p : Peripherals) : Peripherals := { p with icsr := clearBit p.icsr 28 }

instance : SwitchSignal Peripherals where
  request := pendSwitch

def setUp (p : Peripherals) : Setup → Peripherals
  | .timer => p.startTimer
  | .priorities => p.rankExceptions
  | .faults => p.enableFaults
  | .request => p.pendSwitch

theorem isPending_pendSwitch (p : Peripherals) : p.pendSwitch.isPending = true := by
  have h : testBit (setBit 0 28) 28 = true := by decide
  exact h

/-- Preparing the hardware asks for no switch. -/
theorem isPending_setUp {c : Setup} (h : c ≠ .request) (p : Peripherals) :
    (p.setUp c).isPending = p.isPending := by
  cases c with
  | timer => simp only [setUp, isPending, startTimer_eq]
  | priorities => simp only [setUp, isPending, rankExceptions_eq]
  | faults => simp only [setUp, isPending, enableFaults_eq]
  | request => exact absurd rfl h

theorem isPending_clearPending (p : Peripherals) : p.clearPending.isPending = false :=
  testBit_clearBit p.icsr 28

end Peripherals
end RoundRobin

/-!
The fixed sizes of the kernel. There are five slots; slot 0 idles and the other four hold the
application tasks. Each slot owns a stack of 256 words of 32 bits, and the clock ticks a thousand
times a second. Types carry these sizes as numerals, values name them.
-/

namespace RoundRobin

def slotCount : Nat := 5

/-- A place in the task table, permanently bound to one entry point and one stack region. -/
abbrev Slot := Fin 5

/-- Numerals name slots by this instance, whatever else is imported. -/
instance neZero_slots : @NeZero Nat Zero.ofOfNat0 5 := ⟨by decide⟩

theorem Slot.lt (s : Slot) : s.val < 5 := s.isLt

/-- The slot that runs when no application task is ready. -/
def idleSlot : Slot := 0

/-- The slot whose task is launched first. -/
def firstSlot : Slot := 1

def regionWords : Nat := 256
def regionBytes : Nat := 4 * regionWords

def ticksPerSecond : UInt32 := 1000
def clockHertz : UInt32 := 16000000

/-- The tick timer counts down from here to zero once per tick. -/
def timerReload : UInt32 := clockHertz / ticksPerSecond - 1

/-- Program status of a task that has not run yet: only the Thumb bit is set. -/
def thumbStatus : UInt32 := 0x01000000

/-- Branching here ends an exception and goes on in thread mode on the process stack. -/
def threadReturn : UInt32 := 0xFFFFFFFD

/-- Set in `threadReturn` because no floating-point state is saved. -/
def basicFrameBit : UInt32 := 16

/-- CONTROL for tasks: thread mode uses the process stack. -/
def processStackControl : UInt32 := 2

/-- Words that the processor itself saves when it takes an exception. -/
def hardwareWords : Nat := 8

/-- Words that the switch code saves below them. -/
def softwareWords : Nat := 8

def contextWords : Nat := hardwareWords + softwareWords

end RoundRobin

/-!
Machine words. A word is a number, the code address of an entry point, or an address in memory.
The three never coincide: nothing in the kernel computes with an address as a number. An entry point
is one and the same word as a function pointer and as a stacked program counter, so the Thumb bit of
a code address is not represented.
-/

namespace RoundRobin

/-- What a slot runs: one of the application's routines, or nothing yet. No entry point returns; the
one of an unassigned slot spins. -/
inductive Entry where
  | unassigned
  | routine (id : Nat)
  deriving DecidableEq, Repr

/-- Addresses count words from the start of the stack arena and may lie outside it. -/
inductive Word where
  | number (n : UInt32)
  | entry (e : Entry)
  | address (offset : Int)
  deriving DecidableEq, Repr

namespace Word

def zero : Word := number 0

/-- The null pointer, which lies in no region. -/
def null : Word := zero

instance : Inhabited Word := ⟨zero⟩

end Word

def Entry.describe : Entry → String
  | unassigned => "unassigned"
  | routine id => s!"E{id}"

/-- Numbers in decimal, entry points by name. -/
def Word.describe : Word → String
  | number n => toString n
  | entry e => e.describe
  | address p => toString p

end RoundRobin

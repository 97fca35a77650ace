import RoundRobin.Context

/-!
The registers of the processor. R0 to R12, LR, PC and xPSR are those of the running code; PSP and
MSP are the stack pointers of thread mode and of handlers.
-/

namespace RoundRobin

structure Registers where
  r : Vector Word 13
  lr : Word
  pc : Word
  xpsr : Word
  deriving DecidableEq, Repr

instance neZero_registers : @NeZero Nat Zero.ofOfNat0 13 := ⟨by decide⟩

/-- The name of a register as an instruction's operand. -/
inductive Reg where
  | r (n : Fin 13)
  | lr
  | pc
  | xpsr
  deriving DecidableEq, Repr

namespace Registers

def zeroed : Registers := ⟨.replicate 13 .zero, .zero, .zero, .zero⟩

/-- What a task finds when it is launched at `entry`. -/
def atEntry (entry : Word) : Registers :=
  { zeroed with pc := entry, xpsr := .number thumbStatus }

def ofWords (w : Vector Word 16) : Registers :=
  ⟨.ofFn fun i => w[i.val], w.get 13, w.get 14, w.get 15⟩

/-- R0 to R12, LR, PC, xPSR. -/
def toList (g : Registers) : List Word := g.r.toList ++ [g.lr, g.pc, g.xpsr]

def get (g : Registers) : Reg → Word
  | .r n => g.r[n]
  | .lr => g.lr
  | .pc => g.pc
  | .xpsr => g.xpsr

def set (g : Registers) (x : Reg) (w : Word) : Registers :=
  match x with
  | .r n => { g with r := g.r.set n w }
  | .lr => { g with lr := w }
  | .pc => { g with pc := w }
  | .xpsr => { g with xpsr := w }

/-- Sets registers one after the other, as far as there are words. -/
def setAll (g : Registers) (xs : List Reg) (ws : List Word) : Registers :=
  (xs.zip ws).foldl (fun g (x, w) => g.set x w) g

@[simp] theorem get_set (g : Registers) (x y : Reg) (w : Word) :
    (g.set x w).get y = if x = y then w else g.get y := by
  cases x <;> cases y <;> simp [get, set, Vector.getElem_set, Fin.ext_iff]

@[simp] theorem setAll_nil (g : Registers) (ws : List Word) : g.setAll [] ws = g := rfl

@[simp] theorem setAll_cons (g : Registers) (x : Reg) (xs : List Reg) (w : Word) (ws : List Word) :
    g.setAll (x :: xs) (w :: ws) = (g.set x w).setAll xs ws := rfl

end Registers

structure Cpu where
  registers : Registers
  psp : Word
  msp : Word
  control : Word
  /-- Whether interrupts are masked. -/
  masked : Bool
  deriving DecidableEq, Repr

end RoundRobin

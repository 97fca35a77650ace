import RoundRobin.Kernel.Basic
import RoundRobin.Machine.Peripherals
import RoundRobin.Machine.Registers

/-!
The whole machine: the processor, the kernel with the task stacks and the peripherals, and the
memory outside the task stacks, which holds the stack of the handlers. Addresses count words from
the start of the task stacks.
-/

namespace RoundRobin

structure Machine where
  cpu : Cpu
  kernel : Kernel Peripherals
  main : Int → Word

namespace Machine

/-- Where the empty stack of the handlers points, far above the task stacks. -/
def handlerTop : Int := 32768

/-- The machine before anything has run. -/
def blank : Machine where
  cpu := ⟨.zeroed, .null, .address handlerTop, .zero, false⟩
  kernel := .blank .zeroed
  main _ := .zero

def load (m : Machine) (p : Int) : Word := (m.kernel.arena.get? p).getD (m.main p)

def store (m : Machine) (p : Int) (w : Word) : Machine :=
  if 0 ≤ p ∧ p < 1280 then
    { m with kernel := { m.kernel with arena := m.kernel.arena.set p w } }
  else
    { m with main := fun q => if p = q then w else m.main q }

/-- The `n` words from `p` upwards. -/
def loadAll (m : Machine) (p : Int) (n : Nat) : List Word :=
  (List.range n).map fun i : Nat => m.load (p + i)

/-- Stores words from `p` upwards. -/
def storeAll (m : Machine) (p : Int) : List Word → Machine
  | [] => m
  | w :: ws => (m.store p w).storeAll (p + 1) ws

def reg (m : Machine) (x : Reg) : Word := m.cpu.registers.get x

def mapRegisters (m : Machine) (f : Registers → Registers) : Machine :=
  { m with cpu := { m.cpu with registers := f m.cpu.registers } }

def setReg (m : Machine) (x : Reg) (w : Word) : Machine := m.mapRegisters (·.set x w)

def setRegs (m : Machine) (xs : List Reg) (ws : List Word) : Machine :=
  m.mapRegisters (·.setAll xs ws)

def setPsp (m : Machine) (w : Word) : Machine := { m with cpu := { m.cpu with psp := w } }

def setMsp (m : Machine) (w : Word) : Machine := { m with cpu := { m.cpu with msp := w } }

def mask (m : Machine) (masked : Bool) : Machine := { m with cpu := { m.cpu with masked } }

def mapPeripherals (m : Machine) (f : Peripherals → Peripherals) : Machine :=
  { m with kernel := { m.kernel with signal := f m.kernel.signal } }

def peripherals (m : Machine) : Peripherals := m.kernel.signal

def onKernel {α : Type} (a : Action (Kernel Peripherals) α) : Action Machine α :=
  Action.on Machine.kernel (fun kernel m => { m with kernel }) a

theorem load_store (m : Machine) (p q : Int) (w : Word) :
    (m.store p w).load q = if p = q then w else m.load q := by
  by_cases hp : 0 ≤ p ∧ p < 1280
  · by_cases h : p = q
    · subst h
      simp [load, store, hp, Arena.set, Arena.get?]
    · simp [load, store, hp, Arena.get?_set, h]
  · by_cases h : p = q
    · subst h
      simp [load, store, hp, Arena.get?]
    · simp [load, store, hp, h]

@[simp] theorem cpu_store (m : Machine) (p : Int) (w : Word) : (m.store p w).cpu = m.cpu := by
  unfold store
  split <;> rfl

theorem load_storeAll (m : Machine) (p q : Int) (ws : List Word) :
    (m.storeAll p ws).load q =
      if h : p ≤ q ∧ q < p + ws.length then ws[(q - p).toNat] else m.load q := by
  induction ws generalizing m p with
  | nil => rw [dif_neg (by simp), storeAll]
  | cons w ws ih =>
    simp only [List.length_cons]
    rw [storeAll, ih, load_store]
    by_cases h : p + 1 ≤ q ∧ q < p + 1 + ws.length
    · have hq : (q - p).toNat = (q - (p + 1)).toNat + 1 := by omega
      rw [dif_pos h, dif_pos (by omega)]
      simp [hq]
    · rw [dif_neg h]
      by_cases he : p = q
      · subst he
        rw [if_pos rfl, dif_pos (by omega)]
        simp
      · rw [if_neg he, dif_neg (by omega)]

@[simp] theorem cpu_storeAll (m : Machine) (p : Int) (ws : List Word) :
    (m.storeAll p ws).cpu = m.cpu := by
  induction ws generalizing m p with
  | nil => rfl
  | cons w ws ih => rw [storeAll, ih, cpu_store]

@[simp] theorem length_loadAll (m : Machine) (p : Int) (n : Nat) : (m.loadAll p n).length = n := by
  simp [loadAll]

theorem getElem_loadAll (m : Machine) (p : Int) (n i : Nat) (h : i < (m.loadAll p n).length) :
    (m.loadAll p n)[i] = m.load (p + i) := by
  simp [loadAll]

@[simp] theorem reg_storeAll (m : Machine) (p : Int) (ws : List Word) (x : Reg) :
    (m.storeAll p ws).reg x = m.reg x := by
  simp [reg]

@[simp] theorem setRegs_nil (m : Machine) (ws : List Word) : m.setRegs [] ws = m := rfl

@[simp] theorem setRegs_cons (m : Machine) (x : Reg) (xs : List Reg) (w : Word) (ws : List Word) :
    m.setRegs (x :: xs) (w :: ws) = (m.setReg x w).setRegs xs ws := rfl

@[simp] theorem reg_setReg (m : Machine) (x y : Reg) (w : Word) :
    (m.setReg x w).reg y = if x = y then w else m.reg y := by
  simp [reg, setReg, mapRegisters]

@[simp] theorem psp_setReg (m : Machine) (x : Reg) (w : Word) :
    (m.setReg x w).cpu.psp = m.cpu.psp := rfl

@[simp] theorem msp_setReg (m : Machine) (x : Reg) (w : Word) :
    (m.setReg x w).cpu.msp = m.cpu.msp := rfl

@[simp] theorem load_setReg (m : Machine) (x : Reg) (w : Word) (p : Int) :
    (m.setReg x w).load p = m.load p := rfl

@[simp] theorem reg_setPsp (m : Machine) (w : Word) (x : Reg) : (m.setPsp w).reg x = m.reg x := rfl

@[simp] theorem psp_setPsp (m : Machine) (w : Word) : (m.setPsp w).cpu.psp = w := rfl

@[simp] theorem msp_setPsp (m : Machine) (w : Word) : (m.setPsp w).cpu.msp = m.cpu.msp := rfl

@[simp] theorem load_setPsp (m : Machine) (w : Word) (p : Int) :
    (m.setPsp w).load p = m.load p := rfl

@[simp] theorem reg_setMsp (m : Machine) (w : Word) (x : Reg) : (m.setMsp w).reg x = m.reg x := rfl

@[simp] theorem psp_setMsp (m : Machine) (w : Word) : (m.setMsp w).cpu.psp = m.cpu.psp := rfl

@[simp] theorem msp_setMsp (m : Machine) (w : Word) : (m.setMsp w).cpu.msp = w := rfl

@[simp] theorem load_setMsp (m : Machine) (w : Word) (p : Int) :
    (m.setMsp w).load p = m.load p := rfl

end Machine
end RoundRobin

import RoundRobin.Machine.Basic

/-!
The instructions that the switch and the launch of the first task are made of. Several registers are
stored in ascending order, the first named lowest. `push` and `pop` use the stack of the handlers.
-/

namespace RoundRobin

inductive SpecialReg where
  | psp
  | control
  deriving DecidableEq, Repr

inductive Instruction where
  | mrs (rd : Reg) (s : SpecialReg)
  | msr (s : SpecialReg) (rn : Reg)
  | stmdb (rn : Reg) (regs : List Reg)
  | ldmia (rn : Reg) (regs : List Reg)
  | push (regs : List Reg)
  | pop (regs : List Reg)
  | bl
  | bx (rn : Reg)
  | isb
  | cpsie
  deriving DecidableEq, Repr

namespace Machine

def special (m : Machine) : SpecialReg → Word
  | .psp => m.cpu.psp
  | .control => m.cpu.control

def setSpecial (m : Machine) (w : Word) : SpecialReg → Machine
  | .psp => m.setPsp w
  | .control => { m with cpu := { m.cpu with control := w } }

/-- One instruction. A branch only sets PC: it ends the code that it stands in. `bl` runs the
function that it calls, which answers for LR as for the other registers that it may spoil. -/
def execute (callee : Action Machine Unit) : Instruction → Action Machine Unit
  | .mrs rd s => modify fun m => m.setReg rd (m.special s)
  | .msr s rn => modify fun m => m.setSpecial (m.reg rn) s
  | .stmdb rn regs => do
    let m ← get
    let p ← ofExcept (m.reg rn).offset
    let base := p - regs.length
    set ((m.storeAll base (regs.map m.reg)).setReg rn (.address base))
  | .ldmia rn regs => do
    let m ← get
    let p ← ofExcept (m.reg rn).offset
    set ((m.setRegs regs (m.loadAll p regs.length)).setReg rn (.address (p + regs.length)))
  | .push regs => do
    let m ← get
    let p ← ofExcept m.cpu.msp.offset
    let base := p - regs.length
    set ((m.storeAll base (regs.map m.reg)).setMsp (.address base))
  | .pop regs => do
    let m ← get
    let p ← ofExcept m.cpu.msp.offset
    set ((m.setRegs regs (m.loadAll p regs.length)).setMsp (.address (p + regs.length)))
  | .bl => callee
  | .bx rn => modify fun m => m.setReg .pc (m.reg rn)
  | .isb => pure ()
  | .cpsie => modify (mask · false)

def executeAll (callee : Action Machine Unit) : List Instruction → Action Machine Unit
  | [] => pure ()
  | i :: is => do
    execute callee i
    executeAll callee is

variable {callee : Action Machine Unit} {m n : Machine} {rn : Reg} {regs : List Reg} {p : Int}

theorem execute_stmdb (h : m.reg rn = .address p) :
    execute callee (.stmdb rn regs) m = .ok ()
      ((m.storeAll (p - regs.length) (regs.map m.reg)).setReg rn (.address (p - regs.length))) := by
  simp only [execute, Action.get_bind, h]
  rfl

theorem execute_ldmia (h : m.reg rn = .address p) :
    execute callee (.ldmia rn regs) m = .ok ()
      ((m.setRegs regs (m.loadAll p regs.length)).setReg rn (.address (p + regs.length))) := by
  simp only [execute, Action.get_bind, h]
  rfl

theorem execute_push (h : m.cpu.msp = .address p) :
    execute callee (.push regs) m = .ok ()
      ((m.storeAll (p - regs.length) (regs.map m.reg)).setMsp (.address (p - regs.length))) := by
  simp only [execute, Action.get_bind, h]
  rfl

theorem execute_pop (h : m.cpu.msp = .address p) :
    execute callee (.pop regs) m = .ok ()
      ((m.setRegs regs (m.loadAll p regs.length)).setMsp (.address (p + regs.length))) := by
  simp only [execute, Action.get_bind, h]
  rfl

theorem executeAll_cons {i : Instruction} {is : List Instruction}
    (h : execute callee i m = .ok () n) :
    executeAll callee (i :: is) m = executeAll callee is n := by
  rw [executeAll, Action.bind_of_ok h]

end Machine
end RoundRobin

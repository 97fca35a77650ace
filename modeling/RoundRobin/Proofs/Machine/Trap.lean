import RoundRobin.Machine.Switch
import RoundRobin.Proofs.Kernel.Effect
import RoundRobin.Proofs.Machine.Memory

/-!
The switch exception from its entry to its return. The handler is run for any function that it may
call; with the kernel's swap in its place, a taken switch leaves sixteen words of the outgoing task
on its stack and brings back the sixteen words at the incoming pointer. Main statements:
`executeAll_switchCode`, `takeSwitch_eq` and `switched_taken`.
-/

namespace RoundRobin

namespace Registers

theorem ext_get {g h : Registers} (he : ∀ x, g.get x = h.get x) : g = h := by
  have hr : g.r = h.r := by
    apply Vector.ext
    intro i hi
    exact he (.r ⟨i, hi⟩)
  rcases g with ⟨r, lr, pc, xpsr⟩
  rcases h with ⟨r', lr', pc', xpsr'⟩
  cases hr
  cases he .lr
  cases he .pc
  cases he .xpsr
  rfl

theorem get_setAll_of_notMem {x : Reg} {xs : List Reg} (h : x ∉ xs) (g : Registers)
    (ws : List Word) : (g.setAll xs ws).get x = g.get x := by
  induction xs generalizing g ws with
  | nil => rfl
  | cons y xs ih =>
    obtain ⟨hy, hx⟩ := not_or.mp (mt List.mem_cons.mpr h)
    cases ws with
    | nil => rfl
    | cons w ws => rw [setAll_cons, ih hx, get_set, if_neg (Ne.symm hy)]

theorem map_get_setAll_of_disjoint {xs ys : List Reg} (h : ∀ y ∈ ys, y ∉ xs) (g : Registers)
    (ws : List Word) : ys.map (g.setAll xs ws).get = ys.map g.get :=
  List.map_congr_left fun y hy => get_setAll_of_notMem (h y hy) g ws

theorem map_get_setAll {xs : List Reg} {ws : List Word} (hx : xs.Nodup)
    (h : xs.length = ws.length) (g : Registers) : xs.map (g.setAll xs ws).get = ws := by
  induction xs generalizing g ws with
  | nil => exact (List.length_eq_zero_iff.mp h.symm).symm
  | cons x xs ih =>
    obtain ⟨hn, hx⟩ := List.nodup_cons.mp hx
    cases ws with
    | nil => cases h
    | cons w ws =>
      rw [List.map_cons, setAll_cons, ih hx (Nat.succ.inj h), get_setAll_of_notMem hn, get_set,
        if_pos rfl]

/-- The words that a task's registers make on its stack, lowest address first. -/
def frame (g : Registers) : List Word := (softwareSaved ++ hardwareSaved).map g.get

theorem frame_eq (g : Registers) :
    g.frame = softwareSaved.map g.get ++ hardwareSaved.map g.get := List.map_append

theorem mem_saved (x : Reg) : x ∈ softwareSaved ++ hardwareSaved := by
  rcases x with n | _ | _ | _
  · revert n
    decide
  · decide
  · decide
  · decide

/-- Every register is in the frame, so the frame determines the registers. -/
theorem frame_inj {g h : Registers} : g.frame = h.frame ↔ g = h := by
  constructor
  · intro he
    exact ext_get fun x => List.map_inj_left.mp he x (mem_saved x)
  · rintro rfl
    rfl

end Registers

namespace Machine

variable {m n : Machine} {p q s : Int}

/-! ## The handler -/

/-- The machine once the handler has stored its registers, lowest address first. -/
def stacked (m : Machine) (p : Int) : Machine :=
  ((m.setReg (.r 0) (.address p)).storeAll (p - 8) (softwareSaved.map m.reg)).setReg (.r 0)
    (.address (p - 8))

/-- The machine when the handler calls out: the stack pointer is the argument and, with the return
code, on the handlers' stack. -/
def called (m : Machine) (p s : Int) : Machine :=
  ((m.stacked p).storeAll (s - 2) [.address (p - 8), m.reg .lr]).setMsp (.address (s - 2))

/-- The machine once the handler has its return code back. -/
def popped (n : Machine) (s : Int) : Machine :=
  (n.setRegs [.r 1, .lr] (n.loadAll (s - 2) 2)).setMsp (.address s)

/-- The machine once the handler has loaded its registers from `q`. -/
def reloaded (n : Machine) (q s : Int) : Machine :=
  ((n.popped s).setRegs softwareSaved (n.loadAll q 8)).setReg (.r 0) (.address (q + 8))

/-- The machine when the handler branches back, if the function that it called returned `q`. -/
def resumed (n : Machine) (q s : Int) : Machine :=
  ((n.reloaded q s).setPsp (.address (q + 8))).setReg .pc (n.load (s - 1))

theorem map_reg_setReg {xs : List Reg} {x : Reg} (h : x ∉ xs) (m : Machine) (w : Word) :
    xs.map (m.setReg x w).reg = xs.map m.reg := by
  apply List.map_congr_left
  intro y hy
  have hne : x ≠ y := by
    rintro rfl
    exact h hy
  rw [reg_setReg, if_neg hne]

theorem execute_save {callee : Action Machine Unit} :
    execute callee (.stmdb (.r 0) softwareSaved) (m.setReg (.r 0) (.address p)) =
      .ok () (m.stacked p) := by
  rw [execute_stmdb (p := p) (by simp), map_reg_setReg (by decide)]
  rfl

theorem execute_push_save {callee : Action Machine Unit} (hs : m.cpu.msp = .address s) :
    execute callee (.push [.r 0, .lr]) (m.stacked p) = .ok () (m.called p s) := by
  have hm : (m.stacked p).cpu.msp = .address s := by
    simpa [stacked] using hs
  have hr : [Reg.r 0, .lr].map (m.stacked p).reg = [.address (p - 8), m.reg .lr] := by
    simp [stacked]
  rw [execute_push hm, hr]
  rfl

theorem reg_lr_popped (n : Machine) (s : Int) : (n.popped s).reg .lr = n.load (s - 1) := by
  have hl : n.loadAll (s - 2) 2 = [n.load (s - 2), n.load (s - 1)] := by
    simp only [loadAll, List.range, List.range.loop, List.map_cons, List.map_nil]
    rw [show s - 2 + ((0 : Nat) : Int) = s - 2 by omega,
      show s - 2 + ((1 : Nat) : Int) = s - 1 by omega]
  rw [popped, hl]
  simp

theorem reg_lr_reloaded (n : Machine) (q s : Int) : (n.reloaded q s).reg .lr = n.load (s - 1) := by
  rw [reloaded, reg_setReg, if_neg (by decide), ← reg_lr_popped]
  exact Registers.get_setAll_of_notMem (by decide) _ _

/-- Whatever function the handler calls, it stores its registers below the process stack pointer
before the call and loads them from the function's answer after it. -/
theorem executeAll_switchCode {callee : Action Machine Unit} (hp : m.cpu.psp = .address p)
    (hs : m.cpu.msp = .address s) (hc : callee (m.called p s) = .ok () n)
    (hm : n.cpu.msp = .address (s - 2)) (hq : n.reg (.r 0) = .address q) :
    executeAll callee switchCode m = .ok () (n.resumed q s) := by
  have hmrs : execute callee (.mrs (.r 0) .psp) m = .ok () (m.setReg (.r 0) (.address p)) := by
    rw [← hp]
    rfl
  have hbl : execute callee .bl (m.called p s) = .ok () n := hc
  have hpop : execute callee (.pop [.r 1, .lr]) n = .ok () (n.popped s) := by
    rw [execute_pop hm, List.length_cons, List.length_singleton,
      show s - 2 + ((2 : Nat) : Int) = s by omega]
    rfl
  have hload : execute callee (.ldmia (.r 0) softwareSaved) (n.popped s) =
      .ok () (n.reloaded q s) := by
    have hq' : (n.popped s).reg (.r 0) = .address q := by
      rw [← hq]
      exact Registers.get_setAll_of_notMem (by decide) _ _
    rw [execute_ldmia hq']
    rfl
  have hmsr : execute callee (.msr .psp (.r 0)) (n.reloaded q s) =
      .ok () ((n.reloaded q s).setPsp (.address (q + 8))) := by
    have hr : (n.reloaded q s).reg (.r 0) = .address (q + 8) := by
      rw [reloaded, reg_setReg, if_pos rfl]
    rw [← hr]
    rfl
  have hbx : execute callee (.bx .lr) ((n.reloaded q s).setPsp (.address (q + 8))) =
      .ok () (n.resumed q s) := by
    rw [resumed, ← reg_lr_reloaded n q s]
    rfl
  rw [switchCode, executeAll_cons hmrs, executeAll_cons execute_save,
    executeAll_cons (execute_push_save hs), executeAll_cons hbl, executeAll_cons hpop,
    executeAll_cons hload, executeAll_cons hmsr, executeAll_cons hbx]
  rfl

theorem reg_pc_resumed (n : Machine) (q s : Int) : (n.resumed q s).reg .pc = n.load (s - 1) := by
  rw [resumed, reg_setReg, if_pos rfl]

theorem kernel_called (m : Machine) (p s : Int) :
    (m.called p s).kernel = { m.kernel with arena := (m.called p s).kernel.arena } := by
  have hk : (m.stacked p).kernel = { m.kernel with arena := (m.stacked p).kernel.arena } :=
    kernel_storeAll _ _ _
  have hc : (m.called p s).kernel =
      { (m.stacked p).kernel with arena := (m.called p s).kernel.arena } := kernel_storeAll _ _ _
  rw [hc, hk]

theorem cpu_called (m : Machine) (p s : Int) :
    (m.called p s).cpu =
      { m.cpu with registers := (m.called p s).cpu.registers, msp := .address (s - 2) } := by
  have hk : (m.stacked p).cpu = { m.cpu with registers := (m.stacked p).cpu.registers } := by
    simp [stacked, setReg, mapRegisters]
  have hc : (m.called p s).cpu = { (m.stacked p).cpu with msp := .address (s - 2) } := by
    simp [called, setMsp]
  rw [hc, hk]

theorem load_stacked_of_outside {a : Int} (h : a < p - 8 ∨ p ≤ a) :
    (m.stacked p).load a = m.load a := by
  have hw : (softwareSaved.map m.reg).length = 8 := rfl
  rw [stacked, load_setReg, load_storeAll_of_outside (by omega), load_setReg]

theorem loadAll_stacked (m : Machine) (p : Int) :
    (m.stacked p).loadAll (p - 8) 8 = softwareSaved.map m.reg :=
  loadAll_storeAll (m.setReg (.r 0) (.address p)) (p - 8) (softwareSaved.map m.reg)

/-- Apart from two words on the handlers' stack, the memory is as the save left it. -/
theorem load_called_of_apart {a : Int} (h : a < s - 2 ∨ s ≤ a) :
    (m.called p s).load a = (m.stacked p).load a := by
  rw [called, load_setMsp, load_storeAll_of_outside (by simpa using h)]

theorem load_called_of_outside {a : Int} (hp : a < p - 8 ∨ p ≤ a) (hs : a < s - 2 ∨ s ≤ a) :
    (m.called p s).load a = m.load a := by
  rw [load_called_of_apart hs, load_stacked_of_outside hp]

theorem loadAll_called (h : p ≤ s - 2 ∨ s ≤ p - 8) :
    (m.called p s).loadAll (p - 8) 8 = softwareSaved.map m.reg := by
  rw [← loadAll_stacked]
  exact loadAll_congr fun a _ _ => load_called_of_apart (by omega)

/-- The return code waits on the handlers' stack. -/
theorem load_called_return : (m.called p s).load (s - 1) = m.reg .lr := by
  have hl : [Word.address (p - 8), m.reg .lr].length = 2 := rfl
  rw [called, load_setMsp, load_storeAll, dif_pos (by omega)]
  simp only [show (s - 1 - (s - 2)).toNat = 1 by omega]
  rfl

theorem map_reg_resumed (n : Machine) (q s : Int) :
    softwareSaved.map (n.resumed q s).reg = n.loadAll q 8 := by
  rw [resumed, map_reg_setReg (by decide)]
  have hr : softwareSaved.map (n.reloaded q s).reg =
      softwareSaved.map ((n.popped s).setRegs softwareSaved (n.loadAll q 8)).reg :=
    map_reg_setReg (by decide) _ _
  exact hr.trans (Registers.map_get_setAll (by decide) (length_loadAll _ _ _).symm _)

theorem load_setRegs (m : Machine) (xs : List Reg) (ws : List Word) (a : Int) :
    (m.setRegs xs ws).load a = m.load a := rfl

theorem load_resumed (n : Machine) (q s a : Int) : (n.resumed q s).load a = n.load a := by
  rw [resumed, load_setReg, load_setPsp, reloaded, load_setReg, load_setRegs, popped, load_setMsp,
    load_setRegs]

theorem cpu_setRegs (m : Machine) (xs : List Reg) (ws : List Word) :
    (m.setRegs xs ws).cpu = { m.cpu with registers := m.cpu.registers.setAll xs ws } := rfl

theorem cpu_setReg (m : Machine) (x : Reg) (w : Word) :
    (m.setReg x w).cpu = { m.cpu with registers := m.cpu.registers.set x w } := rfl

theorem cpu_resumed (n : Machine) (q s : Int) :
    ∃ g, (n.resumed q s).cpu =
      { n.cpu with registers := g, msp := .address s, psp := .address (q + 8) } := by
  rw [resumed, cpu_setReg, setPsp, reloaded, cpu_setReg, cpu_setRegs, popped, setMsp, cpu_setRegs]
  exact ⟨_, rfl⟩

/-! ## The handler with the kernel's swap -/

/-- The machine after the kernel's swap, for the given outgoing pointer. -/
def swapped (n : Machine) (w : Word) : Machine :=
  let k := n.kernel.withScheduler (n.kernel.scheduler.swapped w)
  (({ n with kernel := k } : Machine).setRegs scratch (scratch.map fun _ => .zero)).setReg (.r 0)
    (k.record k.resident).stackPointer

theorem callSwap_eq {w : Word} (hc : n.kernel.current.toNat < 5) (hw : n.reg (.r 0) = w) :
    callSwap n = .ok () (n.swapped w) := by
  have hs : onKernel (Kernel.swap w) n =
      .ok ((n.kernel.scheduler.swapped w).record n.kernel.scheduler.next).stackPointer
        { n with kernel := n.kernel.withScheduler (n.kernel.scheduler.swapped w) } := by
    simp only [onKernel, Action.on, Kernel.swap_eq hc]
  simp only [callSwap, Action.get_bind, hw, Action.bind_of_ok hs]
  rw [swapped, Kernel.resident_swapped]
  rfl

theorem cpu_swapped (n : Machine) (w : Word) :
    (n.swapped w).cpu = { n.cpu with registers := (n.swapped w).cpu.registers } := rfl

@[simp] theorem load_swapped (n : Machine) (w : Word) (a : Int) :
    (n.swapped w).load a = n.load a := rfl

/-- The machine when the handler of the kernel's switch branches back. -/
def handled (m : Machine) (p q s : Int) : Machine :=
  ((m.called p s).swapped (.address (p - 8))).resumed q s

theorem scheduler_called (m : Machine) (p s : Int) :
    (m.called p s).kernel.scheduler = m.kernel.scheduler := by
  rw [kernel_called]

theorem kernel_handled (m : Machine) (p q s : Int) :
    (m.handled p q s).kernel =
      { m.kernel with
        scheduler := m.kernel.scheduler.swapped (.address (p - 8))
        arena := (m.handled p q s).kernel.arena } := by
  have hk : (m.handled p q s).kernel =
      { (m.called p s).kernel with
        scheduler := (m.called p s).kernel.scheduler.swapped (.address (p - 8)) } := rfl
  rw [hk, kernel_called]

theorem cpu_handled (m : Machine) (p q s : Int) :
    ∃ g, (m.handled p q s).cpu =
      { (m.called p s).cpu with registers := g, msp := .address s, psp := .address (q + 8) } := by
  obtain ⟨g, hg⟩ := cpu_resumed ((m.called p s).swapped (.address (p - 8))) q s
  exact ⟨g, by rw [handled, hg, cpu_swapped]⟩

/-- The handler branches to the return code with which it was entered. -/
theorem reg_pc_handled (m : Machine) (p q s : Int) : (m.handled p q s).reg .pc = m.reg .lr := by
  rw [handled, reg_pc_resumed, load_swapped, load_called_return]

theorem executeAll_callSwap (hc : m.kernel.current.toNat < 5) (hp : m.cpu.psp = .address p)
    (hs : m.cpu.msp = .address s)
    (hq : ((m.kernel.scheduler.swapped (.address (p - 8))).record
      m.kernel.scheduler.next).stackPointer = .address q) :
    executeAll callSwap switchCode m = .ok () (m.handled p q s) := by
  have hcall : callSwap (m.called p s) = .ok () ((m.called p s).swapped (.address (p - 8))) := by
    refine callSwap_eq ?_ ?_
    · rw [Kernel.current, scheduler_called]
      exact hc
    · simp [called, stacked]
  refine executeAll_switchCode hp hs hcall ?_ ?_
  · rw [cpu_swapped, cpu_called]
  · rw [swapped, reg_setReg, if_pos rfl, ← hq, ← scheduler_called m p s,
      ← Scheduler.resident_swapped]
    rfl

/-! ## Entry and return -/

/-- The machine in the handler: the processor has saved its registers. -/
def entered (m : Machine) (p : Int) : Machine :=
  ((m.storeAll (p - 8) (hardwareSaved.map m.reg)).setPsp (.address (p - 8))).setReg .lr
    (.number threadReturn)

/-- The machine back in thread mode: the processor has restored its registers from `p`. -/
def returned (m : Machine) (p : Int) : Machine :=
  (m.setRegs hardwareSaved (m.loadAll p 8)).setPsp (.address (p + 8))

@[simp] theorem load_returned (m : Machine) (p a : Int) : (m.returned p).load a = m.load a := rfl

@[simp] theorem kernel_returned (m : Machine) (p : Int) : (m.returned p).kernel = m.kernel := rfl

theorem enterException_eq (hp : m.cpu.psp = .address p) :
    enterException m = .ok () (m.entered p) := by
  simp only [enterException, Action.get_bind, hp]
  rfl

theorem leaveException_eq (hp : m.cpu.psp = .address p)
    (hr : m.reg .pc = .number threadReturn) : leaveException m = .ok () (m.returned p) := by
  simp only [leaveException, Action.get_bind, hr, hp]
  rfl

theorem kernel_entered (m : Machine) (p : Int) :
    (m.entered p).kernel = { m.kernel with arena := (m.entered p).kernel.arena } :=
  kernel_storeAll _ _ _

theorem cpu_entered (m : Machine) (p : Int) :
    (m.entered p).cpu =
      { m.cpu with registers := (m.entered p).cpu.registers, psp := .address (p - 8) } := by
  have hc : (m.entered p).cpu =
      { (m.storeAll (p - 8) (hardwareSaved.map m.reg)).cpu with
        registers := (m.entered p).cpu.registers
        psp := .address (p - 8) } := rfl
  rw [hc, cpu_storeAll]

theorem reg_lr_entered (m : Machine) (p : Int) :
    (m.entered p).reg .lr = .number threadReturn := by
  rw [entered, reg_setReg, if_pos rfl]

theorem load_entered_of_outside {a : Int} (h : a < p - 8 ∨ p ≤ a) :
    (m.entered p).load a = m.load a := by
  have hw : (hardwareSaved.map m.reg).length = 8 := rfl
  exact load_storeAll_of_outside (by omega)

theorem loadAll_entered (m : Machine) (p : Int) :
    (m.entered p).loadAll (p - 8) 8 = hardwareSaved.map m.reg :=
  loadAll_storeAll m (p - 8) (hardwareSaved.map m.reg)

theorem map_reg_entered (m : Machine) (p : Int) :
    softwareSaved.map (m.entered p).reg = softwareSaved.map m.reg := by
  rw [entered, map_reg_setReg (by decide)]
  exact List.map_congr_left fun x _ => reg_storeAll m _ _ x

/-! ## The switch as a whole -/

/-- Once the processor and the handler have saved their registers, the frame is complete. -/
theorem loadAll_stacked_entered (m : Machine) (p : Int) :
    ((m.entered p).stacked (p - 8)).loadAll (p - 16) 16 = m.cpu.registers.frame := by
  have hlow := loadAll_stacked (m.entered p) (p - 8)
  rw [show p - 8 - 8 = p - 16 by omega, map_reg_entered] at hlow
  have hhigh : ((m.entered p).stacked (p - 8)).loadAll (p - 8) 8 = hardwareSaved.map m.reg := by
    rw [← loadAll_entered]
    exact loadAll_congr fun a _ _ => load_stacked_of_outside (by omega)
  rw [loadAll_add _ _ 8 8, hlow, show p - 16 + ((8 : Nat) : Int) = p - 8 by omega, hhigh,
    Registers.frame_eq]
  rfl

theorem load_stacked_entered_of_outside {a : Int} (h : a < p - 16 ∨ p ≤ a) :
    ((m.entered p).stacked (p - 8)).load a = m.load a := by
  rw [load_stacked_of_outside (by omega), load_entered_of_outside (by omega)]

/-- What a taken switch leaves: `p` is the process stack pointer before it, `q` the incoming task's
pointer and `s` the stack pointer of the handlers. -/
structure Switched (m m' : Machine) (p q s : Int) : Prop where
  scheduler : m'.kernel.scheduler = m.kernel.scheduler.swapped (.address (p - 16))
  populated : m'.kernel.populated = m.kernel.populated
  signal : m'.kernel.signal = m.kernel.signal.clearPending
  control : m'.cpu.control = m.cpu.control
  masked : m'.cpu.masked = m.cpu.masked
  msp : m'.cpu.msp = .address s
  psp : m'.cpu.psp = .address (q + 16)
  incoming : (m'.kernel.record m'.kernel.resident).stackPointer = .address q
  saved : m'.loadAll (p - 16) 16 = m.cpu.registers.frame
  restored : m'.cpu.registers.frame = m'.loadAll q 16
  elsewhere : ∀ a, a < p - 16 ∨ p ≤ a → a < s - 2 ∨ s ≤ a → m'.load a = m.load a

/-- The machine after a taken switch. -/
def taken (m : Machine) (p q s : Int) : Machine :=
  (((m.mapPeripherals Peripherals.clearPending).entered p).handled (p - 8) q s).returned (q + 8)

theorem takeSwitch_eq (hc : m.kernel.current.toNat < 5) (hp : m.cpu.psp = .address p)
    (hs : m.cpu.msp = .address s)
    (hq : ((m.kernel.scheduler.swapped (.address (p - 16))).record
      m.kernel.scheduler.next).stackPointer = .address q) :
    takeSwitch m = .ok () (m.taken p q s) := by
  obtain ⟨m₀, h₀⟩ : ∃ m₀, m₀ = m.mapPeripherals Peripherals.clearPending := ⟨_, rfl⟩
  have hg : m₀.cpu = m.cpu := by
    rw [h₀]
    rfl
  have hk : (m₀.entered p).kernel.scheduler = m.kernel.scheduler := by
    rw [h₀, kernel_entered]
    rfl
  have henter : enterException m₀ = .ok () (m₀.entered p) := enterException_eq (hg ▸ hp)
  have hrun : executeAll callSwap switchCode (m₀.entered p) =
      .ok () ((m₀.entered p).handled (p - 8) q s) := by
    refine executeAll_callSwap ?_ rfl ?_ ?_
    · rw [Kernel.current, hk]
      exact hc
    · rw [cpu_entered, hg, hs]
    · rw [hk, show p - 8 - 8 = p - 16 by omega]
      exact hq
  have hleave : leaveException ((m₀.entered p).handled (p - 8) q s) =
      .ok () (((m₀.entered p).handled (p - 8) q s).returned (q + 8)) := by
    refine leaveException_eq ?_ ?_
    · obtain ⟨g, hg⟩ := cpu_handled (m₀.entered p) (p - 8) q s
      rw [hg]
    · rw [reg_pc_handled, reg_lr_entered]
  rw [takeSwitch, Action.modify_bind, ← h₀, Action.bind_of_ok henter, Action.bind_of_ok hrun,
    hleave, taken, h₀]

theorem kernel_taken (m : Machine) (p q s : Int) :
    (m.taken p q s).kernel =
      { m.kernel with
        scheduler := m.kernel.scheduler.swapped (.address (p - 16))
        arena := (m.taken p q s).kernel.arena
        signal := m.kernel.signal.clearPending } := by
  obtain ⟨m₀, h₀⟩ : ∃ m₀, m₀ = m.mapPeripherals Peripherals.clearPending := ⟨_, rfl⟩
  have hk : (m.taken p q s).kernel = ((m₀.entered p).handled (p - 8) q s).kernel := by
    rw [taken, ← h₀, kernel_returned]
  rw [hk, kernel_handled, kernel_entered, h₀, show p - 8 - 8 = p - 16 by omega]
  rfl

theorem cpu_taken (hs : m.cpu.msp = .address s) :
    ∃ g, (m.taken p q s).cpu = { m.cpu with registers := g, psp := .address (q + 16) } := by
  obtain ⟨m₀, h₀⟩ : ∃ m₀, m₀ = m.mapPeripherals Peripherals.clearPending := ⟨_, rfl⟩
  have hg₀ : m₀.cpu = m.cpu := by
    rw [h₀]
    rfl
  have ht (h : Machine) : ∃ g, (h.returned (q + 8)).cpu =
      { h.cpu with registers := g, psp := .address (q + 16) } := by
    rw [show q + 16 = q + 8 + 8 by omega]
    exact ⟨_, rfl⟩
  obtain ⟨f, hf⟩ := cpu_handled (m₀.entered p) (p - 8) q s
  obtain ⟨g, hg⟩ := ht ((m₀.entered p).handled (p - 8) q s)
  exact ⟨g, by rw [taken, ← h₀, hg, hf, cpu_called, cpu_entered, hg₀, ← hs]⟩

theorem load_taken (m : Machine) (p q s a : Int) :
    (m.taken p q s).load a =
      (((m.mapPeripherals Peripherals.clearPending).entered p).called (p - 8) s).load a := by
  rw [taken, load_returned, handled, load_resumed, load_swapped]

/-- The frame stays on the outgoing task's stack. -/
theorem loadAll_taken (hd : p ≤ s - 2 ∨ s ≤ p - 16) :
    (m.taken p q s).loadAll (p - 16) 16 = m.cpu.registers.frame := by
  rw [show m.cpu.registers = (m.mapPeripherals Peripherals.clearPending).cpu.registers from rfl,
    ← loadAll_stacked_entered _ p]
  refine loadAll_congr fun a _ _ => ?_
  rw [load_taken, load_called_of_apart (by omega)]

/-- The registers are those of the frame at the incoming pointer. -/
theorem frame_taken (m : Machine) (p q s : Int) :
    (m.taken p q s).cpu.registers.frame = (m.taken p q s).loadAll q 16 := by
  obtain ⟨h, hh⟩ : ∃ h, h = ((m.mapPeripherals Peripherals.clearPending).entered p).handled
    (p - 8) q s := ⟨_, rfl⟩
  have hlow : softwareSaved.map (h.returned (q + 8)).reg = h.loadAll q 8 := by
    have hr : softwareSaved.map (h.returned (q + 8)).reg = softwareSaved.map h.reg :=
      Registers.map_get_setAll_of_disjoint (by decide) _ _
    rw [hr, hh, handled, map_reg_resumed]
    exact loadAll_congr fun a _ _ => (load_resumed _ _ _ a).symm
  have hhigh : hardwareSaved.map (h.returned (q + 8)).reg = h.loadAll (q + 8) 8 :=
    Registers.map_get_setAll (by decide) (length_loadAll _ _ _).symm _
  have hl : (h.returned (q + 8)).loadAll q 16 = h.loadAll q 16 :=
    loadAll_congr fun a _ _ => load_returned h _ a
  have hs : h.loadAll q 16 = h.loadAll q 8 ++ h.loadAll (q + 8) 8 := loadAll_add h q 8 8
  rw [taken, ← hh, hl, hs, Registers.frame_eq, ← hlow, ← hhigh]
  rfl

theorem switched_taken (hs : m.cpu.msp = .address s) (hd : p ≤ s - 2 ∨ s ≤ p - 16)
    (hq : ((m.kernel.scheduler.swapped (.address (p - 16))).record
      m.kernel.scheduler.next).stackPointer = .address q) :
    m.Switched (m.taken p q s) p q s := by
  have hk := kernel_taken m p q s
  obtain ⟨g, hg⟩ := cpu_taken (p := p) (q := q) hs
  have hi : ((m.taken p q s).kernel.record (m.taken p q s).kernel.resident).stackPointer =
      .address q := by
    rw [hk, ← hq, ← Scheduler.resident_swapped]
    rfl
  refine ⟨by rw [hk], by rw [hk], by rw [hk], by rw [hg], by rw [hg], by rw [hg, hs], by rw [hg],
    hi, loadAll_taken hd, frame_taken m p q s, ?_⟩
  intro a ha hb
  rw [load_taken, load_called_of_apart hb, load_stacked_entered_of_outside ha]
  rfl

end Machine
end RoundRobin

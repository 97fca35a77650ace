import RoundRobin.Proofs.Machine.Trap

/-!
The handler of the switch exception by itself. What it makes of registers and memory is settled by
the pointer that it gets back, whichever function it calls, as long as that function keeps to the
calling convention. Main statement: `switchCode_branches_back`.
-/

namespace RoundRobin
namespace Machine

variable {m n n' : Machine} {p q s : Int} {tasks : Int → Prop}

/-- At `n` the handler, entered at `m`, calls out. The argument leads to the registers that it has
just saved. -/
structure CallsOut (m n : Machine) (p s : Int) : Prop where
  argument : n.reg (.r 0) = .address (p - 8)
  msp : n.cpu.msp = .address (s - 2)
  saved : n.loadAll (p - 8) 8 = softwareSaved.map m.reg
  elsewhere : ∀ a, a < p - 8 ∨ p ≤ a → a < s - 2 ∨ s ≤ a → n.load a = m.load a

/-- The calling convention for a call at `n` that returns at `n'`. The answer is a pointer; the
handlers' stack pointer, the task stacks and the two words that the caller has pushed are as they
were. All other registers and all other memory may hold anything. -/
structure Honours (tasks : Int → Prop) (n n' : Machine) (q s : Int) : Prop where
  result : n'.reg (.r 0) = .address q
  msp : n'.cpu.msp = n.cpu.msp
  kept : ∀ a, tasks a → n'.load a = n.load a
  pushed : ∀ a, s - 2 ≤ a → a < s → n'.load a = n.load a

/-- At `m'` the handler, entered at `m`, has branched back; it called out at `n` and was answered at
`n'` with the pointer `q`. -/
structure BranchesBack (m n n' m' : Machine) (p q s : Int) : Prop where
  pc : m'.reg .pc = m.reg .lr
  lr : m'.reg .lr = m.reg .lr
  msp : m'.cpu.msp = m.cpu.msp
  psp : m'.cpu.psp = .address (q + 8)
  loaded : softwareSaved.map m'.reg = m'.loadAll q 8
  regained : q = p - 8 → softwareSaved.map m'.reg = softwareSaved.map m.reg
  saved : m'.loadAll (p - 8) 8 = softwareSaved.map m.reg
  memory : ∀ a, m'.load a = n'.load a
  elsewhere : ∀ a, a < p - 8 ∨ p ≤ a → a < s - 2 ∨ s ≤ a →
    n'.load a = n.load a → m'.load a = m.load a

/-- The two words on the handlers' stack do not meet the eight on the task's. -/
theorem clear_of_apart (hroom : ∀ a, p - 8 ≤ a → a < p → tasks a)
    (hapart : ∀ a, s - 2 ≤ a → a < s → ¬ tasks a) : p ≤ s - 2 ∨ s ≤ p - 8 := by
  refine Decidable.byContradiction fun h => ?_
  have hmeet : ¬ tasks (max (p - 8) (s - 2)) := hapart _ (by omega) (by omega)
  exact hmeet (hroom _ (by omega) (by omega))

theorem callsOut_called (hd : p ≤ s - 2 ∨ s ≤ p - 8) : m.CallsOut (m.called p s) p s where
  argument := by simp [called, stacked]
  msp := by rw [cpu_called]
  saved := loadAll_called hd
  elsewhere _ := load_called_of_outside

theorem reg_lr_resumed (n : Machine) (q s : Int) : (n.resumed q s).reg .lr = n.load (s - 1) := by
  rw [resumed, reg_setReg, if_neg (by decide), reg_setPsp, reg_lr_reloaded]

/-- What the handler has put on the two stacks is still there when the called function returns. -/
theorem Honours.branchesBack (h : Honours tasks (m.called p s) n' q s)
    (hs : m.cpu.msp = .address s) (hroom : ∀ a, p - 8 ≤ a → a < p → tasks a)
    (hd : p ≤ s - 2 ∨ s ≤ p - 8) : m.BranchesBack (m.called p s) n' (n'.resumed q s) p q s := by
  have hcode : n'.load (s - 1) = m.reg .lr := by
    rw [h.pushed _ (by omega) (by omega), load_called_return]
  have hsaved : n'.loadAll (p - 8) 8 = softwareSaved.map m.reg := by
    rw [← loadAll_called hd]
    exact loadAll_congr fun a hl hr => h.kept a (hroom a hl (by omega))
  have hmemory (a : Int) : (n'.resumed q s).load a = n'.load a := load_resumed n' q s a
  have hloaded : softwareSaved.map (n'.resumed q s).reg = n'.loadAll q 8 := map_reg_resumed n' q s
  obtain ⟨g, hcpu⟩ := cpu_resumed n' q s
  constructor
  · rw [reg_pc_resumed, hcode]
  · rw [reg_lr_resumed, hcode]
  · rw [hcpu, hs]
  · rw [hcpu]
  · rw [hloaded]
    exact loadAll_congr fun a _ _ => (hmemory a).symm
  · rintro rfl
    rw [hloaded, hsaved]
  · rw [← hsaved]
    exact loadAll_congr fun a _ _ => hmemory a
  · exact hmemory
  · intro a hp hs hkept
    rw [hmemory, hkept, load_called_of_outside hp hs]

/-- **The handler for any callee.** The handlers' stack lies apart from the task stacks, and the
process stack pointer has eight words of task stack below it. Then the handler calls out with the
pointer to the eight registers that it has saved there; and for every function that honours the
calling convention and answers with `q`, it branches back to where it was entered from, with the
registers that lie at `q` and the process stack pointer above them, having changed no other
memory. -/
theorem switchCode_branches_back (m : Machine) (p s : Int) (tasks : Int → Prop)
    (hp : m.cpu.psp = .address p) (hs : m.cpu.msp = .address s)
    (hroom : ∀ a, p - 8 ≤ a → a < p → tasks a)
    (hapart : ∀ a, s - 2 ≤ a → a < s → ¬ tasks a) :
    ∃ n, m.CallsOut n p s ∧
      ∀ (callee : Action Machine Unit) (n' : Machine) (q : Int), callee n = .ok () n' →
        Honours tasks n n' q s →
        ∃ m', executeAll callee switchCode m = .ok () m' ∧ m.BranchesBack n n' m' p q s := by
  have hd := clear_of_apart hroom hapart
  have hcall := callsOut_called (m := m) hd
  refine ⟨m.called p s, hcall, ?_⟩
  intro callee n' q hc h
  have hrun : executeAll callee switchCode m = .ok () (n'.resumed q s) :=
    executeAll_switchCode hp hs hc (h.msp.trans hcall.msp) h.result
  exact ⟨n'.resumed q s, hrun, h.branchesBack hs hroom hd⟩

/-- A machine in the handler. Its registers hold the numbers from 20 on. -/
def interrupted : Machine :=
  { blank with
    cpu :=
      { blank.cpu with
        registers := ⟨.ofFn fun i => .number (20 + i.val.toUInt32), .number threadReturn,
          .number 33, .number 34⟩
        psp := .address 500 } }

/-- A function that uses the handlers' stack below what is on it, leaves a number in every register
that it may spoil, and answers with `q`. -/
def careless (q : Int) : Action Machine Unit := modify fun m =>
  ((m.store (handlerTop - 3) (.number 13)).setRegs scratch (scratch.map fun _ => .number 13)).setReg
    (.r 0) (.address q)

/-- It answers with what the handler has just saved. -/
theorem switchCode_branches_back_careless :
    ∃ n n' m', careless 492 n = .ok () n' ∧
      Honours (fun a => 0 ≤ a ∧ a < 1280) n n' 492 handlerTop ∧
      n'.reg .lr = .number 13 ∧ n'.load (handlerTop - 3) = .number 13 ∧
      executeAll (careless 492) switchCode interrupted = .ok () m' ∧
      m'.reg .lr = .number threadReturn ∧ m'.cpu.psp = .address 500 ∧
      softwareSaved.map m'.reg = [24, 25, 26, 27, 28, 29, 30, 31].map Word.number := by
  obtain ⟨n, hcall, hback⟩ :=
    switchCode_branches_back interrupted 500 handlerTop (fun a => 0 ≤ a ∧ a < 1280) rfl rfl
      (fun a hl hr => by omega) (fun a hl _ => by simp only [handlerTop] at hl; omega)
  obtain ⟨n', hn⟩ : ∃ n', careless 492 n = .ok () n' := ⟨_, rfl⟩
  have hload (a : Int) : n'.load a = (n.store (handlerTop - 3) (.number 13)).load a := by
    cases hn
    rfl
  have hhonours : Honours (fun a => 0 ≤ a ∧ a < 1280) n n' 492 handlerTop := by
    refine ⟨?_, ?_, ?_, ?_⟩
    · cases hn
      simp
    · cases hn
      simp [scratch]
    · intro a ha
      rw [hload, load_store, if_neg (by simp only [handlerTop]; omega)]
    · intro a hl _
      rw [hload, load_store, if_neg (by omega)]
  obtain ⟨m', hrun, h⟩ := hback (careless 492) n' 492 hn hhonours
  refine ⟨n, n', m', hn, hhonours, ?_, ?_, hrun, h.lr, h.psp, h.regained rfl⟩
  · cases hn
    simp [scratch]
  · rw [hload, load_store, if_pos rfl]

end Machine
end RoundRobin

import RoundRobin.Proofs.Machine.Layout

/-!
The first context of a task. Making a region ready leaves exactly what the switch would leave if it
took the task off the processor before its first instruction, so the switch that brings the task to
the processor for the first time needs no case of its own. Main statement:
`prepare_is_preemption`.
-/

namespace RoundRobin

/-- The registers of a task that starts at `e`, before its first instruction. -/
def Registers.unstarted (e : Entry) : Registers :=
  ⟨.replicate 13 .zero, .number threadReturn, .entry e, .number thumbStatus⟩

theorem Registers.context_unstarted (e : Entry) : (unstarted e).context = .fresh e := rfl

theorem Arena.prepare_snd (a : Arena) (j : Slot) (e : Entry) :
    (a.prepare j e).2 = .address (base j + 240) := by
  rw [prepare_eq, firstPointer_eq]

theorem Arena.region_prepare (a : Arena) (i j : Slot) (e : Entry) :
    (a.prepare j e).1.region i = if j = i then ((a.region j).prepare e).1 else a.region i := by
  rw [prepare_eq, region_setRegion]

namespace Machine

variable {m m' : Machine} {p q s : Int} {j : Slot} {e : Entry}

/-- The machine with the task of slot `j` on the processor, its stack empty and its first
instruction still to come. -/
def poised (m : Machine) (j : Slot) (e : Entry) : Machine :=
  { m with cpu := { m.cpu with registers := .unstarted e, psp := .address (Arena.top j) } }

/-- The machine with the region of slot `j` made ready for a task that starts at `e`. -/
def readied (m : Machine) (j : Slot) (e : Entry) : Machine :=
  { m with kernel := { m.kernel with arena := (m.kernel.arena.prepare j e).1 } }

/-- The switch up to where the whole context of the outgoing task is on its stack. -/
def save : Action Machine Unit := do
  enterException
  executeAll (pure ()) (switchCode.take 2)

theorem region_readied (m : Machine) (j : Slot) (e : Entry) :
    (m.readied j e).kernel.arena.region j = ((m.kernel.arena.region j).prepare e).1 :=
  (Arena.region_prepare _ j j e).trans (if_pos rfl)

/-- Nothing is written but the top sixteen words of one region. -/
theorem load_readied_of_outside {a : Int} (h : a < Arena.base j + 240 ∨ Arena.top j ≤ a) :
    (m.readied j e).load a = m.load a := by
  have htop : Arena.top j = Arena.base j + 256 := rfl
  by_cases hin : Arena.base j ≤ a ∧ a < Arena.base j + 240
  · obtain ⟨k, rfl⟩ : ∃ k : Nat, a = Arena.base j + k := ⟨(a - Arena.base j).toNat, by omega⟩
    rw [load_base_add _ j (by omega), load_base_add _ j (by omega)]
    simp only [region_readied]
    exact Region.prepare_below _ e k (by omega)
  · have hout : a < Arena.base j ∨ Arena.top j ≤ a := by omega
    refine load_of_region (m := m) (n := m.readied j e) rfl (fun i hi => ?_) hout
    exact (Arena.region_prepare _ i j e).trans (if_neg (Ne.symm hi))

theorem save_eq (hp : m.cpu.psp = .address p) :
    save m = .ok () ((m.entered p).stacked (p - 8)) := by
  have hmrs : execute (pure ()) (.mrs (.r 0) .psp) (m.entered p) =
      .ok () ((m.entered p).setReg (.r 0) (.address (p - 8))) := rfl
  have hcode : switchCode.take 2 = [.mrs (.r 0) .psp, .stmdb (.r 0) softwareSaved] := rfl
  rw [save, Action.bind_of_ok (enterException_eq hp), hcode, executeAll_cons hmrs,
    executeAll_cons execute_save]
  rfl

/-- Making a region ready is saving the context of its task before the first instruction. -/
theorem save_poised (m : Machine) (j : Slot) (e : Entry) :
    ∃ n, save (m.poised j e) = .ok () n ∧
      n.kernel.arena = (m.kernel.arena.prepare j e).1 ∧
      n.reg (.r 0) = (m.kernel.arena.prepare j e).2 := by
  obtain ⟨n, hn⟩ : ∃ n, n = ((m.poised j e).entered (Arena.top j)).stacked (Arena.top j - 8) :=
    ⟨_, rfl⟩
  have htop : Arena.top j - 16 = Arena.base j + 240 := by
    rw [Arena.top]
    omega
  have hframe : n.loadAll (Arena.base j + 240) 16 =
      (m.readied j e).loadAll (Arena.base j + 240) 16 := by
    rw [loadAll_prepared (region_readied m j e), hn, ← htop, loadAll_stacked_entered,
      Registers.frame_eq_words, ← Registers.context_unstarted]
    rfl
  have hmem (a : Int) : n.load a = (m.readied j e).load a := by
    by_cases h : Arena.base j + 240 ≤ a ∧ a < Arena.top j
    · exact load_of_loadAll hframe h.1 (by omega)
    · rw [load_readied_of_outside (by omega), hn, load_stacked_entered_of_outside (by omega)]
      rfl
  refine ⟨n, hn ▸ save_eq rfl, arena_congr hmem, ?_⟩
  rw [Arena.prepare_snd, ← htop, hn, stacked, reg_setReg, if_pos rfl,
    show Arena.top j - 8 - 8 = Arena.top j - 16 by omega]

/-- The switch restores a first context as it restores any other. -/
theorem Switched.starts {r : Region} (h : m.Switched m' p q s) (hd : Apart s)
    (hb : Arena.base m.resident + 16 ≤ p) (ht : p ≤ Arena.top m.resident) (hr : m'.resident = j)
    (hj : j ≠ m.resident) (hregion : m.kernel.arena.region j = (r.prepare e).1)
    (hpointer : (m.kernel.record j).stackPointer = .address (Arena.base j + 240)) :
    m'.cpu.registers = .unstarted e ∧ m'.cpu.psp = .address (Arena.top j) := by
  have hfound := h.found (hr ▸ hj)
  rw [hr, hpointer] at hfound
  obtain rfl := Word.address.inj hfound
  have hcontext := Arena.contextAt_of_prepare hregion
  have hclear : Arena.base j + 240 + 16 ≤ p - 16 ∨ p ≤ Arena.base j + 240 := by
    have hapart := Arena.base_apart hj
    rw [Arena.top] at hapart
    omega
  constructor
  · rw [← Registers.context_inj, h.context_eq hd hclear hcontext, Registers.context_unstarted]
  · rw [h.psp, Arena.top, Int.add_assoc]
    rfl

/-- **A first context is that of a preempted task.** Making a region ready for a task, whatever the
region holds, leaves the stacks and the pointer that the switch leaves when it saves the context of
this task with its stack empty and its registers as they are before the first instruction. A
switch that later finds the region and the pointer so brings the task back with these registers and
an empty stack. -/
theorem prepare_is_preemption (m : Machine) (j : Slot) (e : Entry) :
    (∃ n, save (m.poised j e) = .ok () n ∧
      n.kernel.arena = (m.kernel.arena.prepare j e).1 ∧
      n.reg (.r 0) = (m.kernel.arena.prepare j e).2) ∧
    ∀ (m₁ : Machine) (s : Int), m₁.kernel.current.toNat < 5 → m₁.cpu.msp = .address s → Apart s →
      m₁.takes (.event .switch) = true → m₁.Within contextWords →
      m₁.kernel.scheduler.next = j → j ≠ m₁.resident →
      m₁.kernel.arena.region j = (m.kernel.arena.prepare j e).1.region j →
      (m₁.kernel.record j).stackPointer = (m.kernel.arena.prepare j e).2 →
      ∃ m₂, step .switch m₁ = .ok (.registers (.unstarted e)) m₂ ∧ m₂.resident = j ∧
        m₂.cpu.registers = .unstarted e ∧ m₂.cpu.psp = .address (Arena.top j) := by
  refine ⟨save_poised m j e, ?_⟩
  intro m₁ s hc hs hd ht hw hnext hj hregion hpointer
  rw [Arena.prepare_snd] at hpointer
  obtain ⟨m₂, p, q, hp, -, -, hstep, hsw⟩ :=
    switched_of_takes hc hs hd ht fun _ => ⟨_, hnext ▸ hpointer⟩
  obtain ⟨b, hb, hroom, htop⟩ := hw
  obtain rfl : p = b := Word.address.inj (hp.symm.trans hb)
  have hr : m₂.resident = j := hsw.resident.trans hnext
  obtain ⟨hregisters, hpsp⟩ :=
    hsw.starts hd hroom htop hr hj (hregion.trans (region_readied m j e)) hpointer
  rw [hregisters] at hstep
  exact ⟨m₂, hstep, hr, hregisters, hpsp⟩

/-- The second task is brought to the processor for the first time when the first tick has come. -/
theorem prepare_is_preemption_second :
    let m₁ := (blank.launched .numbered).act (.event .clock)
    m₁.kernel.current.toNat < 5 ∧ m₁.cpu.msp = .address handlerTop ∧ Apart handlerTop ∧
    m₁.takes (.event .switch) = true ∧ m₁.Within contextWords ∧
    m₁.kernel.scheduler.next = 2 ∧ 2 ≠ m₁.resident ∧
    m₁.kernel.arena.region 2 = (blank.kernel.arena.prepare 2 (.routine 2)).1.region 2 ∧
    (m₁.kernel.record 2).stackPointer = (blank.kernel.arena.prepare 2 (.routine 2)).2 ∧
    ∃ m₂, step .switch m₁ = .ok (.registers (.unstarted (.routine 2))) m₂ ∧ m₂.resident = 2 ∧
      m₂.cpu.registers = .unstarted (.routine 2) ∧ m₂.cpu.psp = .address 768 := by
  intro m₁
  have hd : Apart handlerTop := .inr (by decide)
  have hrun : m₁.kernel.current.toNat < 5 ∧ m₁.cpu.msp = .address handlerTop ∧
      m₁.takes (.event .switch) = true ∧ m₁.Within contextWords ∧
      m₁.kernel.scheduler.next = 2 ∧ 2 ≠ m₁.resident ∧
      (m₁.kernel.record 2).stackPointer = .address (Arena.base 2 + 240) := by
    decide +kernel +zetaReduce
  obtain ⟨hc, hs, ht, hw, hnext, hj, hpointer⟩ := hrun
  have harena : m₁.kernel.arena = blank.kernel.arena.prepared .numbered :=
    arena_act (Scheduler.current_fresh .numbered) rfl rfl rfl
  have hregion : m₁.kernel.arena.region 2 =
      (blank.kernel.arena.prepare 2 (.routine 2)).1.region 2 := by
    rw [harena, Arena.region_prepared]
    exact (region_readied blank 2 (.routine 2)).symm
  rw [← Arena.prepare_snd blank.kernel.arena 2 (.routine 2)] at hpointer
  exact ⟨hc, hs, hd, ht, hw, hnext, hj, hregion, hpointer,
    (prepare_is_preemption blank 2 (.routine 2)).2 m₁ handlerTop hc hs hd ht hw hnext hj hregion
      hpointer⟩

end Machine
end RoundRobin

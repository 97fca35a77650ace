import RoundRobin.Proofs.Machine.Isolation

/-!
One layout for saved contexts. The context that is read at a saved pointer names each register as the
switch has saved it, and the switch restores each register from where that context names it. Main
statement: `switch_moves_contexts`.
-/

namespace RoundRobin

/-- The registers of a task, under the names that they have in its saved context. -/
def Registers.context (g : Registers) : Context where
  r4r11 := .ofFn fun i => g.r[4 + i.val]
  r0 := g.r[0]
  r1 := g.r[1]
  r2 := g.r[2]
  r3 := g.r[3]
  r12 := g.r[12]
  lr := g.lr
  pc := g.pc
  xpsr := g.xpsr

theorem Registers.frame_eq_words (g : Registers) : g.frame = g.context.words.toList := by
  have h : g.frame = [g.r[4], g.r[5], g.r[6], g.r[7], g.r[8], g.r[9], g.r[10], g.r[11],
      g.r[0], g.r[1], g.r[2], g.r[3], g.r[12], g.lr, g.pc, g.xpsr] := rfl
  rw [h]
  simp [context, Context.words]

theorem Registers.context_inj {g h : Registers} : g.context = h.context ↔ g = h := by
  constructor
  · intro he
    rw [← frame_inj, frame_eq_words, frame_eq_words, he]
  · rintro rfl
    rfl

theorem Context.ofWords_eq_iff {w : Vector Word 16} {c : Context} :
    ofWords w = c ↔ w = c.words := by
  constructor
  · rintro rfl
    rw [words_ofWords]
  · rintro rfl
    rw [ofWords_words]

/-- Two contexts are the same if and only if all their words are. -/
theorem Context.ofWords_beq_iff (v w : Vector Word 16) :
    (ofWords v == ofWords w) = true ↔ ∀ i : Fin 16, v[i] = w[i] := by
  rw [beq_iff_eq, ofWords_eq_iff, words_ofWords]
  constructor
  · rintro rfl i
    rfl
  · intro h
    apply Vector.ext
    intro i hi
    exact h ⟨i, hi⟩

namespace Machine

variable {m m' : Machine} {p q s : Int} {c : Context}

theorem contextAt_eq_some_iff (hq : 0 ≤ q ∧ q + 16 ≤ 1280) :
    m.kernel.arena.contextAt q = some c ↔ m.loadAll q 16 = c.words.toList := by
  obtain ⟨w, hw⟩ : ∃ w : Vector Word 16,
      w = .ofFn fun i : Fin 16 => m.kernel.arena.word ⟨q.toNat + i.val, by omega⟩ := ⟨_, rfl⟩
  have hload : m.loadAll q 16 = w.toList := by
    apply List.ext_getElem (by simp)
    intro i hi _
    rw [length_loadAll] at hi
    have hin : 0 ≤ q + (i : Int) ∧ q + (i : Int) < 1280 := by omega
    have hnat : (q + (i : Int)).toNat = q.toNat + i := by omega
    simp [getElem_loadAll, hw, load, Arena.get?, hin, hnat]
  rw [Arena.contextAt, dif_pos hq, ← hw, Option.some_inj, Context.ofWords_eq_iff, hload,
    Vector.toList_inj]

theorem Switched.resident (h : m.Switched m' p q s) : m'.resident = m.kernel.scheduler.next := by
  rw [Machine.resident, Kernel.resident, h.scheduler, Scheduler.resident_swapped]

/-- A task that was not on the processor is brought back from the pointer that waited for it. -/
theorem Switched.found (h : m.Switched m' p q s) (hne : m'.resident ≠ m.resident) :
    (m.kernel.record m'.resident).stackPointer = .address q := by
  have hkept := h.pointer m'.resident
  rw [if_neg (Ne.symm hne)] at hkept
  exact hkept.symm.trans h.incoming

theorem Switched.contextAt_saved (h : m.Switched m' p q s) (hp : 16 ≤ p ∧ p ≤ 1280) :
    m'.kernel.arena.contextAt (p - 16) = some m.cpu.registers.context :=
  (contextAt_eq_some_iff (by omega)).mpr (h.saved.trans (Registers.frame_eq_words _))

theorem Switched.contextAt_restored (h : m.Switched m' p q s) (hq : 0 ≤ q ∧ q + 16 ≤ 1280) :
    m'.kernel.arena.contextAt q = some m'.cpu.registers.context :=
  (contextAt_eq_some_iff hq).mpr (h.restored.symm.trans (Registers.frame_eq_words _))

/-- A context that lies apart from the one being saved is restored as it was before the switch. -/
theorem Switched.context_eq (h : m.Switched m' p q s) (hd : Apart s)
    (hclear : q + 16 ≤ p - 16 ∨ p ≤ q) (hc : m.kernel.arena.contextAt q = some c) :
    m'.cpu.registers.context = c := by
  have hq : 0 ≤ q ∧ q + 16 ≤ 1280 := by
    rw [Arena.contextAt] at hc
    split at hc
    · next hq => exact hq
    · cases hc
  have hload : m'.loadAll q 16 = m.loadAll q 16 := by
    rw [Apart] at hd
    exact loadAll_congr fun a _ _ => h.elsewhere a (by omega) (by omega)
  have hc' : m'.kernel.arena.contextAt q = some c := by
    rw [contextAt_eq_some_iff hq, hload, ← contextAt_eq_some_iff hq, hc]
  exact Option.some_inj.mp ((h.contextAt_restored hq).symm.trans hc')

/-- **One layout.** A switch that is due goes through, provided that the incoming task's pointer has
room for a context above it. The context at the pointer that is saved for the outgoing task then
consists of that task's registers, name by name, and the incoming task's registers are those of the
context at its pointer, name by name, whatever words lie there; its stack pointer is just above
them. Two contexts are the same if and only if all their words are. -/
theorem switch_moves_contexts (m : Machine) (s : Int) (hc : m.kernel.current.toNat < 5)
    (hs : m.cpu.msp = .address s) (hd : Apart s) (ht : m.takes (.event .switch) = true)
    (hq : m.kernel.scheduler.next ≠ m.resident →
      ∃ q, (m.kernel.record m.kernel.scheduler.next).stackPointer = .address q ∧
        0 ≤ q ∧ q + contextWords ≤ 1280) :
    (∃ m' p q, step .switch m = .ok (.registers m'.cpu.registers) m' ∧
      m.cpu.psp = .address p ∧
      (m'.kernel.record m.resident).stackPointer = .address (p - contextWords) ∧
      m'.kernel.arena.contextAt (p - contextWords) = some m.cpu.registers.context ∧
      m'.resident = m.kernel.scheduler.next ∧
      (m'.kernel.record m'.resident).stackPointer = .address q ∧
      m'.kernel.arena.contextAt q = some m'.cpu.registers.context ∧
      m'.cpu.psp = .address (q + contextWords) ∧
      (m'.resident ≠ m.resident →
        (m.kernel.record m'.resident).stackPointer = .address q ∧
        (q + contextWords ≤ p - contextWords ∨ p ≤ q → ∀ c,
          m.kernel.arena.contextAt q = some c → m'.cpu.registers.context = c))) ∧
    ∀ v w : Vector Word 16,
      (Context.ofWords v == Context.ofWords w) = true ↔ ∀ i : Fin 16, v[i] = w[i] := by
  refine ⟨?_, Context.ofWords_beq_iff⟩
  obtain ⟨m', p, q, hp, hlow, hhigh, hstep, hsw⟩ := switched_of_takes hc hs hd ht fun hn =>
    let ⟨q, h, _⟩ := hq hn
    ⟨q, h⟩
  have hkept : (m'.kernel.record m.resident).stackPointer = .address (p - 16) := by
    rw [hsw.pointer, if_pos rfl]
  have hin : 0 ≤ q ∧ q + 16 ≤ 1280 := by
    by_cases hr : m'.resident = m.resident
    · have hincoming : (m'.kernel.record m'.resident).stackPointer = .address q := hsw.incoming
      rw [hr, hkept, Word.address.injEq] at hincoming
      omega
    · obtain ⟨r, hpointer, hroom⟩ := hq fun hn => hr (hsw.resident.trans hn)
      rw [← hsw.resident, hsw.found hr] at hpointer
      cases hpointer
      exact hroom
  exact ⟨m', p, q, hstep, hp, hkept, hsw.contextAt_saved ⟨hlow, hhigh⟩, hsw.resident, hsw.incoming,
    hsw.contextAt_restored hin, hsw.psp,
    fun hr => ⟨hsw.found hr, fun hclear c => hsw.context_eq hd hclear⟩⟩

/-- The fourth task, which has not run yet, gives way to the first one, which has left its mark. -/
theorem switch_moves_contexts_errand :
    let n := (blank.launched .numbered).acts errand
    n.kernel.current.toNat < 5 ∧ n.cpu.msp = .address handlerTop ∧ Apart handlerTop ∧
    n.takes (.event .switch) = true ∧ n.resident = 4 ∧ n.kernel.scheduler.next = 1 ∧
    (n.kernel.record 1).stackPointer = .address 484 ∧
    ∃ m', step .switch n = .ok (.registers m'.cpu.registers) m' ∧
      m'.kernel.arena.contextAt 1264 = some n.cpu.registers.context ∧
      m'.cpu.registers.context =
        ⟨.replicate 8 (.number 7), .number 7, .number 7, .number 7, .number 7, .number 7,
          .number 8, .number 9, .number 10⟩ ∧
      m'.cpu.psp = .address 500 := by
  intro n
  have hn : n.kernel.current.toNat < 5 ∧ n.cpu.msp = .address handlerTop ∧
      n.takes (.event .switch) = true ∧ n.resident = 4 ∧ n.kernel.scheduler.next = 1 ∧
      n.cpu.psp = .address 1280 := by
    decide +kernel +zetaReduce
  have hmark : (n.kernel.record 1).stackPointer = .address 484 ∧
      n.kernel.arena.contextAt 484 = some
        ⟨.replicate 8 (.number 7), .number 7, .number 7, .number 7, .number 7, .number 7,
          .number 8, .number 9, .number 10⟩ := by
    decide +kernel +zetaReduce
  obtain ⟨hc, hs, ht, hr, hnext, hpsp⟩ := hn
  have hd : Apart handlerTop := .inr (by decide)
  obtain ⟨⟨m', p, q, hstep, hp, -, hsaved, hr', -, -, hpsp', hfound⟩, -⟩ :=
    switch_moves_contexts n handlerTop hc hs hd ht fun _ =>
      ⟨484, hnext ▸ hmark.1, by decide, by decide⟩
  obtain rfl : p = 1280 := Word.address.inj (hp.symm.trans hpsp)
  rw [hr', hnext, hr] at hfound
  obtain ⟨hq, hcontext⟩ := hfound (by decide)
  obtain rfl : q = 484 := Word.address.inj (hq.symm.trans hmark.1)
  exact ⟨hc, hs, hd, ht, hr, hnext, hmark.1, m', hstep, hsaved,
    hcontext (.inl (by decide)) _ hmark.2, hpsp'⟩

end Machine
end RoundRobin

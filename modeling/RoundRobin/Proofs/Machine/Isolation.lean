import RoundRobin.Proofs.Machine.Transparency

/-!
Whose words are whose. While every running task keeps to its own region, the context of each task
off the processor lies whole in that task's region, and a taken switch writes nothing but the
context of the task that it takes off. Main statement: `contexts_apart`.
-/

namespace RoundRobin

namespace Arena

/-- The addresses of the words of a slot's region. -/
def Inside (j : Slot) (a : Int) : Prop := base j ≤ a ∧ a < top j

theorem Inside.unique {i j : Slot} {a : Int} (hi : Inside i a) (hj : Inside j a) : i = j := by
  by_cases h : i = j
  · exact h
  · have hap := base_apart h
    obtain ⟨hi, hi'⟩ := hi
    obtain ⟨hj, hj'⟩ := hj
    omega

end Arena

/-- Whether the deed is the running task's own writing. -/
def Deed.isWriting : Deed → Bool
  | .event (.push _) => true
  | .work .. => true
  | _ => false

namespace Machine

variable {m n m' : Machine} {p q s : Int} {L : Slot → View}

/-- The addresses of the sixteen words at the saved pointer of a slot. -/
def InContext (m : Machine) (j : Slot) (a : Int) : Prop :=
  ∃ q, (m.kernel.record j).stackPointer = .address q ∧ q ≤ a ∧ a < q + contextWords

/-- Whether the saved pointer of a slot leads to a whole context in the slot's region. -/
def Contained (m : Machine) (j : Slot) : Prop :=
  ∃ q, (m.kernel.record j).stackPointer = .address q ∧
    Arena.base j ≤ q ∧ q + contextWords ≤ Arena.top j

theorem Rests.contained {j : Slot} {v : View} (h : m.Rests j v) : m.Contained j := by
  obtain ⟨q, hq, hb, ht, -⟩ := h
  exact ⟨q, hq, hb, ht⟩

theorem Contained.inside {j : Slot} (h : m.Contained j) {a : Int} (ha : m.InContext j a) :
    Arena.Inside j a := by
  obtain ⟨q, hq, hb, ht⟩ := h
  obtain ⟨w, hw, hl, hr⟩ := ha
  obtain rfl : q = w := Word.address.inj (hq.symm.trans hw)
  exact ⟨Int.le_trans hb hl, Int.lt_of_lt_of_le hr ht⟩

theorem get?_congr {a : Int} (h : n.load a = m.load a) :
    n.kernel.arena.get? a = m.kernel.arena.get? a := by
  simp only [load, Arena.get?] at h ⊢
  split
  · next ha =>
    rw [dif_pos ha, dif_pos ha] at h
    exact congrArg some h
  · rfl

/-- The words of the arena that a taken switch may change. -/
theorem Switched.get?_eq (h : m.Switched m' p q s) (hd : Apart s) {a : Int}
    (ha : a < p - 16 ∨ p ≤ a) : m'.kernel.arena.get? a = m.kernel.arena.get? a := by
  by_cases hr : 0 ≤ a ∧ a < 1280
  · refine get?_congr (h.elsewhere a ha ?_)
    rw [Apart] at hd
    omega
  · rw [Arena.get?, Arena.get?, dif_neg hr, dif_neg hr]

/-- Nothing but a taken switch and the running task writes to the stacks. -/
theorem arena_act {d : Deed} (hc : m.kernel.current.toNat < 5) (hp : m.kernel.populated = true)
    (ht : m.takes d = false) (hd : d.isWriting = false) :
    (m.act d).kernel.arena = m.kernel.arena := by
  cases hu : d.usesStack with
  | false => exact (still_act hc hp ht hu).arena
  | true =>
    cases d with
    | event e =>
      cases e with
      | push ws => cases hd
      | pop n =>
        rcases act_pop m n with h | ⟨p, h⟩
        · rw [h]
        · rw [h]
          rfl
      | _ => cases hu
    | work g p r => cases hd

/-- **Stacks stay apart.** In every run from a first start in which each running task uses its stack
within its region, and has room there for its context when it is taken off: whatever has happened,
the stack pointer lies in the current task's region; every other slot's saved pointer leads to a
whole context in that slot's region, so that no two of these contexts meet, and none meets the
current task's region. A switch then goes through and changes no word of the stacks outside the
sixteen below the stack pointer; and nothing else but the running task changes any. -/
theorem contexts_apart (app : Application) (m m₀ : Machine) (s : Int) (ds : List Deed)
    (hs : m.cpu.msp = .address s) (hd : Apart s) (hstart : start app m = .ok true m₀)
    (ho : m₀.Orderly ds) :
    let n := m₀.acts ds
    n.kernel.current.toNat = n.resident.val ∧ n.Within 0 ∧
    (∀ j, j ≠ n.resident → n.Contained j) ∧
    (∀ i j, i ≠ n.resident → j ≠ n.resident → i ≠ j → ∀ a, n.InContext i a → ¬ n.InContext j a) ∧
    (∀ j, j ≠ n.resident → ∀ a, n.InContext j a → ¬ Arena.Inside n.resident a) ∧
    (n.takes (.event .switch) = true → n.Within contextWords →
      ∃ n' p, step .switch n = .ok (.registers n'.cpu.registers) n' ∧ n.cpu.psp = .address p ∧
        ∀ a, a < p - contextWords ∨ p ≤ a → n'.kernel.arena.get? a = n.kernel.arena.get? a) ∧
    ∀ d, n.takes d = false → d.isWriting = false → (n.act d).kernel.arena = n.kernel.arena := by
  intro n
  have h : n.Hosts s _ := (hosts_of_start hs hstart).acts hd ho
  have hcontained (j : Slot) (hj : j ≠ n.resident) : n.Contained j := (h.resting j hj).contained
  refine ⟨(Kernel.val_resident h.current).symm, h.within, hcontained, ?_, ?_, ?_,
    fun d => arena_act h.current h.populated⟩
  · intro i j hi hj hij a hia hja
    exact hij (((hcontained i hi).inside hia).unique ((hcontained j hj).inside hja))
  · intro j hj a ha hr
    exact hj (((hcontained j hj).inside ha).unique hr)
  · intro ht hw
    obtain ⟨n', p, q, hp, -, -, hstep, hsw⟩ := h.switched hd ht hw
    exact ⟨n', p, hstep, hp, fun a ha => hsw.get?_eq hd ha⟩

theorem contexts_apart_errand :
    let m₀ := blank.launched .numbered
    let n := m₀.acts errand
    start .numbered blank = .ok true m₀ ∧ m₀.Orderly errand ∧ n.Within 0 ∧
    n.resident = 4 ∧ n.Contained 1 ∧ n.Contained 2 ∧
    n.takes (.event .switch) = true ∧ n.Within contextWords ∧
    ∃ n' p, step .switch n = .ok (.registers n'.cpu.registers) n' ∧ n.cpu.psp = .address p ∧
      ∀ a, a < p - contextWords ∨ p ≤ a → n'.kernel.arena.get? a = n.kernel.arena.get? a := by
  intro m₀ n
  have hstart : start .numbered blank = .ok true m₀ := start_eq rfl _
  have ho : m₀.Orderly errand := by decide +kernel +zetaReduce
  have hn : n.resident = 4 ∧ n.takes (.event .switch) = true ∧ n.Within contextWords := by
    decide +kernel +zetaReduce
  obtain ⟨-, hw, hc, -, -, hsw, -⟩ :=
    contexts_apart .numbered blank m₀ handlerTop errand rfl (.inr (by decide)) hstart ho
  have hne (j : Slot) (hj : j ≠ 4) : n.Contained j := hc j (hn.1.symm ▸ hj)
  exact ⟨hstart, ho, hw, hn.1, hne 1 (by decide), hne 2 (by decide), hn.2.1, hn.2.2,
    hsw hn.2.1 hn.2.2⟩

end Machine
end RoundRobin

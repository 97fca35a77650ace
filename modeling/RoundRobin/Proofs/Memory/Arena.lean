import RoundRobin.Memory.Arena

/-!
How an address in the arena names a word of a region, and where the arena holds a context. Main
statements: `get?_base_add` and `contextAt_of_prepare`.
-/

namespace RoundRobin
namespace Arena

theorem exists_base_add {a : Int} (h : 0 ≤ a ∧ a < 1280) :
    ∃ (j : Slot) (i : Nat), i < 256 ∧ a = base j + i := by
  refine ⟨⟨a.toNat / 256, by omega⟩, a.toNat % 256, Nat.mod_lt _ (by decide), ?_⟩
  simp only [base]
  omega

theorem base_le (j : Slot) : 0 ≤ base j ∧ base j + 256 ≤ 1280 := by
  rw [base]
  omega

/-- Where a first context begins. -/
theorem top_sub_contextWords (j : Slot) : top j - contextWords = base j + 240 := by
  rw [top, Int.add_sub_assoc]
  rfl

/-- The regions lie apart. -/
theorem base_apart {i j : Slot} (h : i ≠ j) : top i ≤ base j ∨ top j ≤ base i := by
  have hv : i.val ≠ j.val := fun he => h (Fin.ext he)
  rw [top, top, base, base]
  omega

/-- The words of a region are those of the arena from the region's base upwards. -/
theorem word_of_val (a : Arena) (j : Slot) {i : Nat} (h : i < 256) {k : Fin 1280}
    (hk : k.val = 256 * j.val + i) : a.word k = (a.region j).words[i] := by
  have hj : holder k = j := by
    apply Fin.ext
    simp only [holder]
    omega
  have hi : k.val % 256 = i := by omega
  rw [word]
  simp only [hj, hi]

theorem get?_base_add (a : Arena) (j : Slot) {i : Nat} (h : i < 256) :
    a.get? (base j + i) = some (a.region j).words[i] := by
  have hb := base_le j
  rw [get?, dif_pos (by omega), word_of_val a j h]
  simp only [base]
  omega

/-- A context is found where its words lie one above the other in a region. -/
theorem contextAt_of_words {a : Arena} {j : Slot} {i : Nat} {c : Context} (hi : i + 16 ≤ 256)
    (h : ∀ (k : Nat) (hk : k < 16), (a.region j).words[i + k] = c.words[k]) :
    a.contextAt (base j + i) = some c := by
  have hb := base_le j
  have hc : (Vector.ofFn fun k : Fin 16 => a.word ⟨(base j + i).toNat + k.val, by omega⟩) =
      c.words := by
    apply Vector.ext
    intro k hk
    rw [Vector.getElem_ofFn, word_of_val a j (show i + k < 256 by omega), h k hk]
    simp only [base]
    omega
  rw [contextAt, dif_pos (by omega), hc, Context.ofWords_words]

/-- A region that has been made ready for its task holds the task's first context at its top. -/
theorem contextAt_of_prepare {a : Arena} {j : Slot} {r : Region} {e : Entry}
    (h : a.region j = (r.prepare e).1) : a.contextAt (base j + 240) = some (.fresh e) := by
  refine contextAt_of_words (i := 240) (by decide) fun k hk => ?_
  simp only [h]
  exact Region.prepare_top r e k hk

theorem ext_words {a b : Arena}
    (h : ∀ (j : Slot) (i : Nat) (hi : i < 256), (a.region j).words[i] = (b.region j).words[i]) :
    a = b := by
  rcases a with ⟨rs⟩
  rcases b with ⟨rs'⟩
  rw [Arena.mk.injEq]
  apply Vector.ext
  intro j hj
  have hw : (rs[j]).words = (rs'[j]).words := Vector.ext fun i hi => h ⟨j, hj⟩ i hi
  cases hr : rs[j]
  cases hr' : rs'[j]
  rw [hr, hr'] at hw
  exact congrArg Region.mk hw

end Arena
end RoundRobin

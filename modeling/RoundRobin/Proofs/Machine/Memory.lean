import RoundRobin.Machine.Basic
import RoundRobin.Proofs.Memory.Arena

/-!
Memory as the stacks see it: what a series of stores leaves, and how an address in a task's region
names a word of that region. Main statements: `loadAll_storeAll`, `load_base_add` and
`loadAll_prepared`.
-/

namespace RoundRobin

namespace Machine

variable {m n : Machine}

/-! ## Series of words -/

theorem loadAll_congr {p : Int} {k : Nat}
    (h : ∀ a, p ≤ a → a < p + k → m.load a = n.load a) : m.loadAll p k = n.loadAll p k := by
  apply List.map_congr_left
  intro i hi
  have hk := List.mem_range.mp hi
  exact h _ (by omega) (by omega)

theorem load_of_loadAll {p a : Int} {k : Nat} (h : m.loadAll p k = n.loadAll p k) (hl : p ≤ a)
    (hr : a < p + k) : m.load a = n.load a := by
  obtain ⟨i, rfl⟩ : ∃ i : Nat, a = p + i := ⟨(a - p).toNat, by omega⟩
  have hi : i < k := by omega
  simpa [loadAll, hi] using congrArg (·[i]?) h

theorem loadAll_add (m : Machine) (p : Int) (k l : Nat) :
    m.loadAll p (k + l) = m.loadAll p k ++ m.loadAll (p + k) l := by
  rw [loadAll, List.range_add, List.map_append, List.map_map]
  congr 1
  apply List.map_congr_left
  intro i _
  rw [Function.comp_apply, Int.natCast_add, Int.add_assoc]

theorem load_storeAll_of_outside {p a : Int} {ws : List Word} (h : a < p ∨ p + ws.length ≤ a) :
    (m.storeAll p ws).load a = m.load a := by
  rw [load_storeAll, dif_neg (by omega)]

theorem loadAll_storeAll (m : Machine) (p : Int) (ws : List Word) :
    (m.storeAll p ws).loadAll p ws.length = ws := by
  apply List.ext_getElem (length_loadAll _ _ _)
  intro i hi hw
  rw [getElem_loadAll, load_storeAll, dif_pos (by omega)]
  congr 1
  omega

/-! ## Stores change nothing but memory -/

theorem kernel_store (m : Machine) (p : Int) (w : Word) :
    (m.store p w).kernel = { m.kernel with arena := (m.store p w).kernel.arena } := by
  rw [store]
  split <;> rfl

theorem kernel_storeAll (m : Machine) (p : Int) (ws : List Word) :
    (m.storeAll p ws).kernel = { m.kernel with arena := (m.storeAll p ws).kernel.arena } := by
  induction ws generalizing m p with
  | nil => rfl
  | cons w ws ih =>
    rw [storeAll, ih, kernel_store]

/-! ## Addresses and regions -/

theorem load_base_add (m : Machine) (j : Slot) {i : Nat} (h : i < 256) :
    m.load (Arena.base j + i) = (m.kernel.arena.region j).words[i] := by
  rw [load, Arena.get?_base_add _ j h, Option.getD_some]

/-- All of the task stacks can be seen in memory. -/
theorem arena_congr (h : ∀ a, m.load a = n.load a) : m.kernel.arena = n.kernel.arena := by
  refine Arena.ext_words fun j i hi => ?_
  rw [← load_base_add m j hi, ← load_base_add n j hi, h]

/-- The context that makes a region ready for its task, seen in memory. -/
theorem loadAll_prepared {j : Slot} {r : Region} {e : Entry}
    (h : m.kernel.arena.region j = (r.prepare e).1) :
    m.loadAll (Arena.base j + 240) 16 = (Context.fresh e).words.toList := by
  apply List.ext_getElem (by simp)
  intro i hi _
  rw [length_loadAll] at hi
  rw [getElem_loadAll, Int.add_assoc, show (240 : Int) + i = ((240 + i : Nat) : Int) by omega,
    load_base_add _ j (by omega), Vector.getElem_toList, ← Region.prepare_top r e i hi]
  simp only [h]

/-- Whatever becomes of one region, the words elsewhere stay as they are. -/
theorem load_of_region {j : Slot} (hm : n.main = m.main)
    (hr : ∀ i, i ≠ j → n.kernel.arena.region i = m.kernel.arena.region i) {a : Int}
    (ha : a < Arena.base j ∨ Arena.top j ≤ a) : n.load a = m.load a := by
  by_cases h : 0 ≤ a ∧ a < 1280
  · obtain ⟨i, k, hk, rfl⟩ := Arena.exists_base_add h
    have hij : i ≠ j := by
      rintro rfl
      rw [Arena.top] at ha
      omega
    rw [load_base_add n i hk, load_base_add m i hk]
    simp only [hr i hij]
  · simp only [load, Arena.get?, dif_neg h, hm]

end Machine
end RoundRobin

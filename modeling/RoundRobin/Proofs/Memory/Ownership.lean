import Mathlib.Data.List.Sort
import RoundRobin.Proofs.Memory.Arena

/-!
Whose address it is. A region claims its top as well as its words, and the regions lie back to back.
So together they claim all of the arena, but they do not share it out: where one region ends and the
next begins, both claim the address. Main statement: `owned_exactly`.
-/

namespace RoundRobin
namespace Arena

variable {s t u : Slot} {p : Int} {w : Word}

/-- Where the region of one slot ends and that of another begins. -/
def Meet (s t : Slot) (p : Int) : Prop := p = top s ∧ p = base t

theorem top_eq_base_iff : top s = base t ↔ s.val + 1 = t.val := by
  rw [top, base, base]
  omega

/-- Only neighbours meet, and only at the base of the upper one. -/
theorem meet_iff : Meet s t p ↔ s.val + 1 = t.val ∧ p = base t := by
  rw [Meet, ← top_eq_base_iff]
  constructor
  · rintro ⟨hs, ht⟩
    exact ⟨hs ▸ ht, ht⟩
  · rintro ⟨h, ht⟩
    exact ⟨h ▸ ht, ht⟩

/-! ## Claims -/

theorem claims_iff : claims s (.address p) = true ↔ base s ≤ p ∧ p ≤ top s := by
  simp [claims]

/-- Some region claims every address of the arena, its end included, and no other. -/
theorem exists_claims_iff : (∃ s, claims s (.address p) = true) ↔ base 0 ≤ p ∧ p ≤ top 4 := by
  have hfirst : base 0 = 0 := rfl
  have hlast : top 4 = 1280 := rfl
  rw [hfirst, hlast]
  constructor
  · rintro ⟨s, h⟩
    have hs := base_le s
    rw [claims_iff, top] at h
    omega
  · rintro ⟨hl, hr⟩
    by_cases h : p < 1280
    · obtain ⟨s, i, hi, rfl⟩ := exists_base_add ⟨hl, h⟩
      refine ⟨s, claims_iff.mpr ?_⟩
      rw [top]
      omega
    -- The end of the arena holds no word, but the last region claims it as its top.
    · obtain rfl : p = top 4 := Int.le_antisymm hr (Int.not_lt.mp h)
      exact ⟨4, by decide⟩

/-- Two regions claim an address only where they meet. -/
theorem meet_of_claims (hlt : s < t) (hs : claims s (.address p) = true)
    (ht : claims t (.address p) = true) : Meet s t p := by
  rw [claims_iff] at hs ht
  have hv : s.val < t.val := hlt
  have hle : top s ≤ base t := by
    rw [top, base, base]
    omega
  exact ⟨by omega, by omega⟩

theorem meet_or_meet_of_claims (h : t ≠ s) (hs : claims s (.address p) = true)
    (ht : claims t (.address p) = true) : Meet s t p ∨ Meet t s p := by
  rcases lt_or_gt_of_ne h with hlt | hlt
  · exact .inr (meet_of_claims hlt ht hs)
  · exact .inl (meet_of_claims hlt hs ht)

/-- Where two regions meet, no third one claims the address. -/
theorem Meet.claims_iff (h : Meet s t p) : claims u (.address p) = true ↔ u = s ∨ u = t := by
  obtain ⟨hst, rfl⟩ := meet_iff.mp h
  rw [Arena.claims_iff, top, base, base, Fin.ext_iff, Fin.ext_iff]
  omega

/-! ## Owners -/

theorem mem_owners : s ∈ owners w ↔ claims s w = true := by
  simp [owners]

theorem pairwise_owners (w : Word) : (owners w).Pairwise (· < ·) :=
  (List.sortedLT_finRange 5).pairwise.filter _

/-- The owners are the one ascending list of the slots that claim the address. -/
theorem owners_eq_iff {l : List Slot} (hl : l.Pairwise (· < ·)) :
    owners w = l ↔ ∀ s, claims s w = true ↔ s ∈ l := by
  constructor
  · rintro rfl s
    exact mem_owners.symm
  · intro h
    exact (pairwise_owners w).eq_of_mem_iff hl fun s => mem_owners.trans (h s)

theorem owners_eq_nil_iff : owners (.address p) = [] ↔ p < base 0 ∨ top 4 < p := by
  have hnone : owners (.address p) = [] ↔ ¬ ∃ s, claims s (.address p) = true := by
    rw [owners_eq_iff List.Pairwise.nil]
    simp
  rw [hnone, exists_claims_iff]
  omega

theorem owners_eq_pair_iff : owners (.address p) = [s, t] ↔ Meet s t p := by
  constructor
  · intro h
    have hlt : s < t := by simpa [h] using pairwise_owners (.address p)
    have hmem (u : Slot) (hu : u ∈ [s, t]) : claims u (.address p) = true :=
      mem_owners.mp (h ▸ hu)
    exact meet_of_claims hlt (hmem s (by simp)) (hmem t (by simp))
  · intro h
    have hlt : s < t := by
      have hv := (meet_iff.mp h).1
      exact Fin.lt_def.mpr (by omega)
    rw [owners_eq_iff (List.pairwise_pair.mpr hlt)]
    intro u
    rw [h.claims_iff, List.mem_pair]

example : owners (.address 256) = [0, 1] := by decide

/-- An address of the arena at which no two regions meet has a single owner. -/
theorem exists_owners_eq_singleton_iff : (∃ s, owners (.address p) = [s]) ↔
    (base 0 ≤ p ∧ p ≤ top 4) ∧ ∀ s t, ¬ Meet s t p := by
  constructor
  · rintro ⟨s, h⟩
    refine ⟨exists_claims_iff.mp ⟨s, mem_owners.mp (by simp [h])⟩, fun t u hm => ?_⟩
    rw [owners_eq_pair_iff.mpr hm] at h
    cases h
  · rintro ⟨hin, hmeet⟩
    obtain ⟨s, hs⟩ := exists_claims_iff.mpr hin
    refine ⟨s, (owners_eq_iff (List.pairwise_singleton _ s)).mpr fun t => ?_⟩
    rw [List.mem_singleton]
    constructor
    · intro ht
      by_contra hne
      rcases meet_or_meet_of_claims hne hs ht with hm | hm
      · exact hmeet s t hm
      · exact hmeet t s hm
    · rintro rfl
      exact hs

/-- A context in a region has room below the region's top, so it can meet no region above. -/
theorem claims_of_context (hb : base s ≤ p) (ht : p + contextWords ≤ top s) :
    claims s (.address p) = true ∧
      ∀ t, t ≠ s → (claims t (.address p) = true ↔ t.val + 1 = s.val ∧ p = base s) := by
  have hroom : p < top s := Int.lt_of_lt_of_le (Int.lt_add_of_pos_right p (by decide)) ht
  have hs : claims s (.address p) = true := claims_iff.mpr ⟨hb, Int.le_of_lt hroom⟩
  refine ⟨hs, fun t hne => ?_⟩
  rw [← meet_iff]
  constructor
  · intro ht'
    rcases meet_or_meet_of_claims hne hs ht' with hm | hm
    · exact absurd hm.1 (Int.ne_of_lt hroom)
    · exact hm
  · intro hm
    exact hm.claims_iff.mpr (.inl rfl)

/-- **Ownership is exact.** The words of a slot's region lie from its base up to its top, which is
the base of the next slot's region and of no other. The owners of an address are the slots whose
regions claim it. The null pointer has none, nor has an address below the arena or above its end; an
address at which two regions meet has these two, in order; every other address of the arena has just
one. So a slot claims the pointer to a whole context in its region, and another slot claims it as
well only if it is the slot below and the context begins at the very base of the region. -/
theorem owned_exactly :
    (∀ (a : Arena) (s : Slot) (i : Fin 256),
      a.get? (base s + i.val) = some (a.region s).words[i]) ∧
    (∀ s t, top s = base t ↔ s.val + 1 = t.val) ∧
    (∀ w s, s ∈ owners w ↔ claims s w = true) ∧
    owners .null = [] ∧
    (∀ p, owners (.address p) = [] ↔ p < base 0 ∨ top 4 < p) ∧
    (∀ p s t, owners (.address p) = [s, t] ↔ p = top s ∧ p = base t) ∧
    (∀ p, (∃ s, owners (.address p) = [s]) ↔
      (base 0 ≤ p ∧ p ≤ top 4) ∧ ∀ s t, ¬ (p = top s ∧ p = base t)) ∧
    ∀ s p, base s ≤ p → p + contextWords ≤ top s →
      claims s (.address p) = true ∧
        ∀ t, t ≠ s → (claims t (.address p) = true ↔ t.val + 1 = s.val ∧ p = base s) := by
  exact ⟨fun a s i => get?_base_add a s i.isLt, fun _ _ => top_eq_base_iff,
    fun _ _ => mem_owners, rfl, fun _ => owners_eq_nil_iff, fun _ _ _ => owners_eq_pair_iff,
    fun _ => exists_owners_eq_singleton_iff, fun _ _ => claims_of_context⟩

end Arena
end RoundRobin

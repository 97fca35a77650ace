import Mathlib.Data.List.FinRange
import Mathlib.Order.Fin.Tuple
import RoundRobin.Task.Application

/-!
The numbers of the application slots. Whichever slot is left out as the idle one, the others are
numbered from zero in ascending order without a gap; so an application's routines are bound to them
one by one. Main statement: `numbered_in_order`.
-/

namespace RoundRobin

variable {slot idle : UInt64} {n : Nat}

/-- The three outcomes of numbering; in none of them does the subtraction fault. -/
theorem applicationNumber_cases (slot idle : UInt64) :
    slot = idle ∧ applicationNumber slot idle = .ok none ∨
    slot < idle ∧ applicationNumber slot idle = .ok (some slot) ∨
    idle < slot ∧ applicationNumber slot idle = .ok (some (slot - 1)) := by
  rcases Nat.lt_trichotomy slot.toNat idle.toNat with h | h | h
  · exact .inr (.inl ⟨h, applicationNumber_of_lt h⟩)
  · obtain rfl : slot = idle := UInt64.toNat_inj.mp h
    exact .inl ⟨rfl, applicationNumber_self slot⟩
  · exact .inr (.inr ⟨h, applicationNumber_of_gt h⟩)

theorem exists_applicationNumber (slot idle : UInt64) :
    ∃ r, applicationNumber slot idle = .ok r := by
  rcases applicationNumber_cases slot idle with ⟨-, h⟩ | ⟨-, h⟩ | ⟨-, h⟩ <;> exact ⟨_, h⟩

theorem applicationNumber_eq_none_iff : applicationNumber slot idle = .ok none ↔ slot = idle := by
  rcases applicationNumber_cases slot idle with ⟨rfl, h⟩ | ⟨hlt, h⟩ | ⟨hgt, h⟩
  · exact iff_of_true h rfl
  · simp [h, UInt64.ne_of_lt hlt]
  · simp [h, (UInt64.ne_of_lt hgt).symm]

/-! ## The order of the numbers -/

/-- `i.succAbove` runs through the slots other than `i` in order; a slot's number is its place
there. -/
theorem applicationNumber_succAbove {i : Fin (n + 1)} {k : Fin n} (hi : idle.toNat = i.val)
    (hs : slot.toNat = (i.succAbove k).val) :
    ∃ w : UInt64, applicationNumber slot idle = .ok (some w) ∧ w.toNat = k.val := by
  rcases Nat.lt_or_ge k.val i.val with h | h
  · rw [Fin.succAbove_of_castSucc_lt i k h, Fin.val_castSucc] at hs
    have hlt : slot < idle := by
      rw [UInt64.lt_iff_toNat_lt, hs, hi]
      exact h
    exact ⟨slot, applicationNumber_of_lt hlt, hs⟩
  · rw [Fin.succAbove_of_le_castSucc i k h, Fin.val_succ] at hs
    have hgt : idle < slot := by
      rw [UInt64.lt_iff_toNat_lt, hs, hi]
      exact Nat.lt_succ_of_le h
    refine ⟨slot - 1, applicationNumber_of_gt hgt, ?_⟩
    rw [toNat_sub_one_of_gt hgt, hs, Nat.add_sub_cancel]

/-- The slots other than the idle one in their order, and the numbers below their count in theirs,
correspond. -/
theorem exists_numbering (h : idle.toNat < n) :
    ∃ f : {s : Fin n // s ≠ ⟨idle.toNat, h⟩} ≃o Fin (n - 1),
      ∀ s (slot : UInt64), slot.toNat = s.val.val →
        ∃ k : UInt64, applicationNumber slot idle = .ok (some k) ∧ k.toNat = (f s).val := by
  obtain ⟨m, rfl⟩ : ∃ m, n = m + 1 := ⟨n - 1, by omega⟩
  -- The isomorphism of the library leads from the numbers to the slots.
  let above : Fin m ≃o {s : Fin (m + 1) // s ≠ ⟨idle.toNat, h⟩} := finSuccAboveOrderIso ⟨_, h⟩
  refine ⟨above.symm, fun s slot hs => ?_⟩
  obtain ⟨k, rfl⟩ := above.surjective s
  rw [above.symm_apply_apply]
  exact applicationNumber_succAbove rfl hs

/-! ## Entry points -/

namespace Application

theorem entry_eq_error_iff {app : Application} {f : Fault} :
    app.entry slot = .error f ↔ slotCount ≤ slot.toNat ∧ f = .outOfBounds 4 (slot.toNat - 1) := by
  by_cases h : slot = 0
  · subst h
    simp [entry_zero, slotCount]
  · have hpos : 0 < slot := UInt64.pos_iff_ne_zero.mpr h
    have hend : 4 ≤ slot.toNat - 1 ↔ slotCount ≤ slot.toNat := by
      rw [slotCount]
      omega
    rw [entry_of_pos app hpos, fetch_eq_error_iff, toNat_sub_one_of_gt hpos, hend]

/-- Every routine is bound once, in order. -/
theorem mapM_entry_range (app : Application) :
    ((List.range slotCount).filter (· ≠ idleSlot.val)).mapM (app.entry ·.toUInt64) =
      .ok app.tasks.toList := by
  have hslots : (List.range slotCount).filter (· ≠ idleSlot.val) =
      (List.finRange 4).map (·.val + 1) := by decide
  have hentry : (app.entry ·.toUInt64) ∘ (·.val + 1) = fun i : Fin 4 => pure app.tasks[i] := by
    funext i
    exact entry_succ app i.isLt
  have htasks : (List.finRange 4).map (fun i => app.tasks[i]) = app.tasks.toList :=
    List.ext_getElem (by simp) (by simp)
  rw [hslots, List.mapM_map, hentry, List.mapM_pure, htasks]
  rfl

end Application

/-- **Numbering keeps the order of the slots.** Numbering any slot beside any idle one does not
fault: where one is subtracted from the slot, the slot is at least one. Of a table with any number
of slots let any one be idle. Exactly that slot has no number, and the others in their order
correspond to the numbers below their count in theirs. Hence an application binds its idle routine
to the idle slot and its other routines, each once and in order, to the slots that remain; and
asking for the entry point of a slot faults exactly from the end of the table on, with the index
that is looked up. -/
theorem numbered_in_order (idle : UInt64) (n : Nat) (h : idle.toNat < n) (app : Application) :
    (∀ a b, ∃ r, applicationNumber a b = .ok r) ∧
    (∀ slot, applicationNumber slot idle = .ok none ↔ slot = idle) ∧
    (∃ f : {s : Fin n // s ≠ ⟨idle.toNat, h⟩} ≃o Fin (n - 1),
      ∀ s (slot : UInt64), slot.toNat = s.val.val →
        ∃ k : UInt64, applicationNumber slot idle = .ok (some k) ∧ k.toNat = (f s).val) ∧
    (∀ a b, b < a → 1 ≤ a ∧ applicationNumber a b = .ok (some (a - 1))) ∧
    app.entry idleSlot.val.toUInt64 = .ok app.idle ∧
    ((List.range slotCount).filter (· ≠ idleSlot.val)).mapM (app.entry ·.toUInt64) =
      .ok app.tasks.toList ∧
    ∀ slot f, app.entry slot = .error f ↔
      slotCount ≤ slot.toNat ∧ f = .outOfBounds 4 (slot.toNat - 1) := by
  exact ⟨exists_applicationNumber, fun _ => applicationNumber_eq_none_iff, exists_numbering h,
    fun _ _ hlt => ⟨one_le_of_gt hlt, applicationNumber_of_gt hlt⟩, Application.entry_zero app,
    Application.mapM_entry_range app, fun _ _ => Application.entry_eq_error_iff⟩

/-- The idle slot in the middle of a table of five, and slots up to the last one of 64 bits. -/
theorem numbered_in_order_middle :
    let app : Application := ⟨.routine 9, #v[.routine 4, .routine 2, .routine 2, .routine 7]⟩
    (2 : UInt64).toNat < 5 ∧ applicationNumber 2 2 = .ok none ∧
    applicationNumber 1 2 ≠ .ok none ∧
    (∃ f : {s : Fin 5 // s ≠ ⟨2, by decide⟩} ≃o Fin 4,
      ∀ s (slot : UInt64), slot.toNat = s.val.val →
        ∃ k : UInt64, applicationNumber slot 2 = .ok (some k) ∧ k.toNat = (f s).val) ∧
    applicationNumber 18446744073709551615 2 = .ok (some 18446744073709551614) ∧
    app.entry 0 = .ok (.routine 9) ∧
    [1, 2, 3, 4].mapM app.entry = .ok [.routine 4, .routine 2, .routine 2, .routine 7] ∧
    app.entry 5 = .error (.outOfBounds 4 4) ∧
    app.entry 18446744073709551615 = .error (.outOfBounds 4 18446744073709551614) := by
  intro app
  obtain ⟨-, hnone, hnumbers, hword, hidle, hentries, herror⟩ :=
    numbered_in_order 2 5 (by decide) app
  refine ⟨by decide, (hnone 2).mpr rfl, fun h => absurd ((hnone 1).mp h) (by decide), hnumbers,
    (hword 18446744073709551615 2 (by decide)).2, hidle, hentries, (herror 5 _).mpr ⟨?_, rfl⟩,
    (herror 18446744073709551615 _).mpr ⟨?_, rfl⟩⟩
  · decide
  · decide

end RoundRobin

import Mathlib.Data.List.Rotate
import RoundRobin.Proofs.Scheduler.Command

/-!
Selections in a row. As long as nobody wakes or goes to sleep, they go round the ready application
slots in ascending order, from the first one after the current slot on, and the number of the current
slot may be any. Main statement: `selections_go_round`.
-/

namespace RoundRobin
namespace Scheduler

variable {s : Scheduler} {i j : Slot} {js as bs : List Slot}

/-- The scheduler when it is the turn of slot `j`. -/
def turnedTo (s : Scheduler) (j : Slot) : Scheduler := { s with current := j.val.toUInt64 }

/-- Selections in a row. Each answers with a slot; what it leaves stands beside its answer. -/
def selections : Nat → Action Scheduler (List (Slot × Scheduler))
  | 0 => return []
  | n + 1 => do
    let j ← select
    let t ← get
    return (j, t) :: (← selections n)

/-- The ready application slots, in ascending order. -/
def roster (s : Scheduler) : List Slot :=
  (List.finRange 5).filter fun j => j ≠ idleSlot ∧ (s.record j).status = .ready

/-- The roster from the first slot after the current one on; the current one itself comes last. -/
def order (s : Scheduler) : List Slot :=
  s.roster.filter (s.resident < ·) ++ s.roster.filter (· ≤ s.resident)

/-- The slots that the next selections choose. -/
def upcoming (s : Scheduler) : Nat → List Slot
  | 0 => []
  | n + 1 => s.next :: s.turned.upcoming n

/-! ## Going round the table -/

theorem rotation_mod (n : Nat) : rotation (n % 5) = rotation n := by
  apply List.map_congr_left
  intro k _
  apply Fin.ext
  simp only [Fin.ofNat]
  omega

theorem rotation_succ (n : Nat) : rotation (n + 1) = (rotation n).rotate 1 := by
  have h : rotation n =
      [Fin.ofNat 5 (n + 1), Fin.ofNat 5 (n + 2), Fin.ofNat 5 (n + 3), Fin.ofNat 5 (n + 4),
        Fin.ofNat 5 (n + 5)] := rfl
  have h' : rotation (n + 1) =
      [Fin.ofNat 5 (n + 2), Fin.ofNat 5 (n + 3), Fin.ofNat 5 (n + 4), Fin.ofNat 5 (n + 5),
        Fin.ofNat 5 (n + 1 + 5)] := rfl
  have hlast : Fin.ofNat 5 (n + 1 + 5) = Fin.ofNat 5 (n + 1) := Fin.ext (Nat.add_mod_right _ 5)
  rw [h', h, hlast]
  rfl

theorem rotation_add (n m : Nat) : rotation (n + m) = (rotation n).rotate m := by
  induction m with
  | zero => rw [Nat.add_zero, List.rotate_zero]
  | succ m ih => rw [← Nat.add_assoc, rotation_succ, ih, List.rotate_rotate]

/-- Every rotation is the ascending order of the slots, cut after the slot that it starts from. -/
theorem rotation_eq (n : Nat) :
    rotation n = (List.finRange 5).filter (Fin.ofNat 5 n < ·) ++
      (List.finRange 5).filter (· ≤ Fin.ofNat 5 n) := by
  have h : ∀ c : Slot, rotation c.val =
      (List.finRange 5).filter (c < ·) ++ (List.finRange 5).filter (· ≤ c) := by decide
  rw [← rotation_mod]
  exact h (Fin.ofNat 5 n)

/-- To go on from slot `j` is to take up the rotation behind it. -/
theorem rotation_of_append {n : Nat} (h : rotation n = as ++ j :: bs) :
    rotation j.val = bs ++ (as ++ [j]) := by
  have hj : (rotation n)[as.length]? = some j := by simp [h]
  have hn : (n + (as.length + 1)) % 5 = j.val := by
    rw [rotation, List.getElem?_map] at hj
    obtain ⟨k, hk, rfl⟩ := Option.map_eq_some_iff.mp hj
    obtain ⟨hlt, hk⟩ := List.getElem?_eq_some_iff.mp hk
    rw [List.getElem_finRange] at hk
    rw [← hk]
    simp only [Fin.ofNat, Fin.val_cast]
    omega
  have hcut : as ++ j :: bs = (as ++ [j]) ++ bs := by simp
  have hlen : as.length + 1 = (as ++ [j]).length := by simp
  rw [← hn, rotation_mod, rotation_add, h, hcut, hlen, List.rotate_append_length_eq]

/-! ## The order of the turns -/

theorem order_eq (s : Scheduler) : s.order = (rotation s.current.toNat).filter s.isCandidate := by
  have hcand : s.isCandidate = fun j : Slot =>
      decide (j ≠ idleSlot ∧ (s.record j).status = .ready) := by
    funext j
    rw [Bool.eq_iff_iff, isCandidate_iff, decide_eq_true_iff]
  have hresident : Fin.ofNat 5 s.current.toNat = s.resident := rfl
  rw [order, roster, ← hcand, rotation_eq, hresident, List.filter_append]
  simp only [List.filter_filter, Bool.and_comm]

theorem order_perm (s : Scheduler) : s.order.Perm s.roster := by
  have h := List.filter_append_perm (s.resident < ·) s.roster
  simp only [← decide_not, Fin.not_lt] at h
  exact h

theorem next_eq_head?_order (s : Scheduler) : s.next = s.order.head?.getD idleSlot := by
  rw [order_eq, List.head?_filter]
  rfl

theorem next_of_roster_nil (h : s.roster = []) : s.next = idleSlot := by
  have ho : s.order = [] := List.Perm.eq_nil (h ▸ s.order_perm)
  rw [next_eq_head?_order, ho]
  rfl

/-- The step of the argument: who was next goes to the end. -/
theorem order_turned (h : s.order = j :: js) : s.turned.order = js ++ [j] := by
  have hnext : s.next = j := by
    rw [next_eq_head?_order, h]
    rfl
  rw [order_eq] at h
  obtain ⟨as, bs, hrot, has, hj, rfl⟩ := List.filter_eq_cons_iff.mp h
  have hskip : as.filter s.isCandidate = [] := List.filter_eq_nil_iff.mpr has
  have hsame : s.turned.isCandidate = s.isCandidate := rfl
  rw [order_eq, toNat_current_turned, hnext, rotation_of_append hrot, hsame]
  simp [hskip, hj]

theorem order_turned_eq_rotate (h : s.roster ≠ []) : s.turned.order = s.order.rotate 1 := by
  cases ho : s.order with
  | nil => exact absurd (List.Perm.nil_eq (ho ▸ s.order_perm)).symm h
  | cons j js =>
    rw [order_turned ho, List.rotate_cons_succ, List.rotate_zero]

/-! ## Selections in a row -/

theorem length_upcoming (s : Scheduler) (n : Nat) : (s.upcoming n).length = n := by
  induction n generalizing s with
  | zero => rfl
  | succ n ih => rw [upcoming, List.length_cons, ih]

theorem upcoming_of_roster_nil (h : s.roster = []) (n : Nat) :
    ∀ j ∈ s.upcoming n, j = idleSlot := by
  induction n generalizing s with
  | zero => simp [upcoming]
  | succ n ih =>
    have hrest : ∀ j ∈ s.turned.upcoming n, j = idleSlot := ih h
    simpa [upcoming, next_of_roster_nil h] using hrest

theorem getElem?_upcoming (h : s.roster ≠ []) {n k : Nat} (hk : k < n) :
    (s.upcoming n)[k]? = s.order[k % s.roster.length]? := by
  induction n generalizing s k with
  | zero => exact absurd hk (Nat.not_lt_zero k)
  | succ n ih =>
    have hlen : s.order.length = s.roster.length := s.order_perm.length_eq
    have hpos : 0 < s.order.length := hlen ▸ List.length_pos_iff.mpr h
    cases k with
    | zero =>
      have hhead : s.order[0]? = some s.next := by
        rw [next_eq_head?_order, List.head?_eq_getElem?, List.getElem?_eq_getElem hpos]
        rfl
      rw [Nat.zero_mod, hhead]
      rfl
    | succ k =>
      have hrest : (s.turned.upcoming n)[k]? = s.turned.order[k % s.roster.length]? :=
        ih (s := s.turned) h (Nat.lt_of_succ_lt_succ hk)
      rw [upcoming, List.getElem?_cons_succ, hrest, order_turned_eq_rotate h, ← hlen,
        List.getElem?_rotate (Nat.mod_lt k hpos), Nat.mod_add_mod]

theorem selections_eq (hc : s.current.toNat + 1 < UInt64.size) (n : Nat) :
    selections n s = .ok ((s.upcoming n).map fun j => (j, s.turnedTo j))
      (((s.upcoming n).getLast?.map s.turnedTo).getD s) := by
  induction n generalizing s with
  | zero => rfl
  | succ n ih =>
    have hc' : s.turned.current.toNat + 1 < UInt64.size := by
      rw [toNat_current_turned]
      exact Nat.lt_of_le_of_lt (Nat.succ_le_of_lt s.next.isLt) (by decide)
    have hselect : select s = .ok s.next s.turned := select_of_lt hc
    rw [selections, Action.bind_of_ok hselect, Action.get_bind, Action.bind_of_ok (ih hc'), upcoming,
      List.getLast?_cons]
    cases (s.turned.upcoming n).getLast? <;> rfl

/-- **Selections go round.** From any scheduler whose current slot has a next number, a series of
selections goes through. If no application task is ready, it selects the idle slot each time.
Otherwise it repeats the order of the ready ones endlessly, so that as many selections in a row as
there are ready tasks select each of them once. No selection changes anything but the current slot. -/
theorem selections_go_round (s : Scheduler) (n : Nat) (hc : s.current.toNat + 1 < UInt64.size) :
    ∃ js : List Slot, js.length = n ∧
      selections n s = .ok (js.map fun j => (j, s.turnedTo j))
        ((js.getLast?.map s.turnedTo).getD s) ∧
      (s.roster = [] → ∀ j ∈ js, j = idleSlot) ∧
      (s.roster ≠ [] →
        (∀ k, k < n → js[k]? = s.order[k % s.roster.length]?) ∧
        (∀ k, k + s.roster.length ≤ n →
          ((js.drop k).take s.roster.length).Perm s.roster) ∧
        ∀ k, k + s.roster.length < n → js[k + s.roster.length]? = js[k]?) := by
  have hlength := s.length_upcoming n
  refine ⟨s.upcoming n, hlength, selections_eq hc n, fun h => upcoming_of_roster_nil h n, ?_⟩
  intro h
  have hlen : s.order.length = s.roster.length := s.order_perm.length_eq
  refine ⟨fun k => getElem?_upcoming h, ?_, ?_⟩
  · intro k hk
    -- A window as long as the roster is the order, rotated to where the window begins.
    have hwindow : ((s.upcoming n).drop k).take s.roster.length = s.order.rotate k := by
      apply List.ext_getElem?
      intro i
      by_cases hi : i < s.roster.length
      · rw [List.getElem?_take_of_lt hi, List.getElem?_drop, getElem?_upcoming h (by omega),
          List.getElem?_rotate (hlen ▸ hi), hlen, Nat.add_comm]
      · have hend : ((s.upcoming n).drop k).length = n - k := by
          rw [List.length_drop, hlength]
        rw [List.getElem?_eq_none (by rw [List.length_take]; omega),
          List.getElem?_eq_none (by rw [List.length_rotate]; omega)]
    rw [hwindow]
    exact (List.rotate_perm _ k).trans s.order_perm
  · intro k hk
    rw [getElem?_upcoming h hk, getElem?_upcoming h (by omega), Nat.add_mod_right]

/-- Tasks 1, 3 and 4 are ready, and the current number 12 names no slot; counted round the table, it
stands where slot 2 does. -/
def astray : Scheduler :=
  ⟨#v[.vacant, .vacant, Record.vacant.blockedUntil 9, .vacant, .vacant], 12, 0⟩

theorem selections_go_round_astray :
    astray.current.toNat + 1 < UInt64.size ∧ astray.roster = [1, 3, 4] ∧
    ∃ js : List Slot, js.length = 7 ∧
      selections 7 astray = .ok (js.map fun j => (j, astray.turnedTo j))
        ((js.getLast?.map astray.turnedTo).getD astray) ∧
      (∀ k, k < 7 → js[k]? = [3, 4, 1][k % 3]?) ∧
      (∀ k, k + 3 ≤ 7 → ((js.drop k).take 3).Perm [1, 3, 4]) ∧
      ∀ k, k + 3 < 7 → js[k + 3]? = js[k]? := by
  have hc : astray.current.toNat + 1 < UInt64.size := by decide
  have hroster : astray.roster = [1, 3, 4] := by decide
  have horder : astray.order = [3, 4, 1] := by decide
  obtain ⟨js, hlength, hrun, -, hround⟩ := selections_go_round astray 7 hc
  rw [hroster, horder] at hround
  exact ⟨hc, hroster, js, hlength, hrun, hround (by simp)⟩

end Scheduler
end RoundRobin

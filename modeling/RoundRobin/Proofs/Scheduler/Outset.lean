import RoundRobin.Proofs.Scheduler.Population

/-!
What is there when the first task is about to be launched. The slots are bound one after the other
in one arena; what has been made for a slot is not touched again, and nothing is touched that no
first context covers. Main statement: `outset_of_any_state`.
-/

namespace RoundRobin

/-- A context with nothing in its thirteen general registers that resumes Thumb code at `e`. -/
structure Context.Starts (c : Context) (e : Entry) : Prop where
  r4r11 : c.r4r11 = .replicate 8 .zero
  r0 : c.r0 = .zero
  r1 : c.r1 = .zero
  r2 : c.r2 = .zero
  r3 : c.r3 = .zero
  r12 : c.r12 = .zero
  lr : c.lr = .number threadReturn
  pc : c.pc = .entry e
  xpsr : c.xpsr = .number thumbStatus
  thumb : c.isThumb = true

theorem Context.starts_fresh (e : Entry) : (fresh e).Starts e := by
  have hthumb : (thumbStatus &&& thumbStatus != 0) = true := by decide
  exact ⟨rfl, rfl, rfl, rfl, rfl, rfl, rfl, rfl, rfl, hthumb⟩

namespace Arena

theorem contextAt_prepared (a : Arena) (app : Application) (j : Slot) :
    (a.prepared app).contextAt (top j - contextWords) = some (.fresh (app.bound j)) := by
  rw [top_sub_contextWords]
  exact contextAt_of_prepare (region_prepared a app j)

theorem get?_prepared_of_below (a : Arena) (app : Application) {j : Slot} {p : Int}
    (hb : base j ≤ p) (hp : p < top j - contextWords) : (a.prepared app).get? p = a.get? p := by
  rw [top_sub_contextWords] at hp
  obtain ⟨i, rfl⟩ : ∃ i : Nat, p = base j + i := ⟨(p - base j).toNat, by omega⟩
  rw [get?_base_add _ j (by omega), get?_base_add _ j (by omega)]
  simp only [region_prepared]
  rw [Region.prepare_below _ _ i (by omega)]

end Arena

namespace Scheduler

theorem mem_take_finRange {n : Nat} {j : Slot} : j ∈ (List.finRange 5).take n ↔ j.val < n := by
  rw [List.mem_take_iff_getElem]
  constructor
  · rintro ⟨i, hi, rfl⟩
    rw [List.getElem_finRange]
    exact Nat.lt_of_lt_of_le hi (Nat.min_le_left _ _)
  · intro h
    have hj : j.val < min n (List.finRange 5).length := by
      rw [List.length_finRange]
      exact Nat.lt_min.mpr ⟨h, j.isLt⟩
    exact ⟨j.val, hj, List.getElem_finRange _⟩

/-- After the first `n` rounds of the loop, the slots below `n` are as they will be in the end, and
the others as they were. -/
theorem bindSlots_take (s : Scheduler) (a : Arena) (app : Application) (n : Nat) :
    ∃ tasks a', bindSlots app ((List.finRange 5).take n) (s.tasks, a) = .ok (tasks, a') ∧
      ∀ j : Slot,
        (j.val < n → tasks.get j = (fresh app).record j ∧ a'.region j = (a.prepared app).region j) ∧
        (n ≤ j.val → tasks.get j = s.record j ∧ a'.region j = a.region j) := by
  have hnodup : ((List.finRange 5).take n).Nodup :=
    (List.nodup_finRange 5).sublist (List.take_sublist _ _)
  obtain ⟨tasks, a', he, hj⟩ := bindSlots_cases app _ hnodup s.tasks a
  refine ⟨tasks, a', he, fun j => ⟨fun hlt => ?_, fun hle => ?_⟩⟩
  · rw [record_fresh, Arena.region_prepared]
    exact (hj j).1 (mem_take_finRange.mpr hlt)
  · exact (hj j).2 fun hm => Nat.not_lt.mpr hle (mem_take_finRange.mp hm)

/-- **The outset is the same from every state.** Filling the table goes through for every scheduler,
all contents of the stacks and every application. Afterwards each slot's saved pointer lies sixteen
words below the top of its region; the context there has zeros in the thirteen general registers,
the return code of thread mode in LR, the slot's entry point in PC and only the Thumb bit in xPSR;
the slot is ready, with wake tick zero and its entry point. The words of a region below its context
are what they were, the first slot is current, and the clock stands at zero. The loop comes to this
slot by slot: after `n` rounds the first `n` slots are in their final state and the others in their
old one. -/
theorem outset_of_any_state (s : Scheduler) (a : Arena) (app : Application) :
    ∃ s' a', s.populate a app = .ok (s', a') ∧
      s'.current.toNat = firstSlot.val ∧ s'.ticks = 0 ∧
      (∀ j : Slot, ∃ e c, app.entry j.val.toUInt64 = .ok e ∧
        s'.record j = ⟨.address (Arena.top j - contextWords), 0, .ready, e⟩ ∧
        a'.contextAt (Arena.top j - contextWords) = some c ∧ c.Starts e ∧
        ∀ p, Arena.base j ≤ p → p < Arena.top j - contextWords → a'.get? p = a.get? p) ∧
      ∀ n, ∃ tasks₁ a₁,
        bindSlots app ((List.finRange 5).take n) (s.tasks, a) = .ok (tasks₁, a₁) ∧
        ∀ j : Slot,
          (j.val < n → tasks₁.get j = s'.record j ∧ a₁.region j = a'.region j) ∧
          (n ≤ j.val → tasks₁.get j = s.record j ∧ a₁.region j = a.region j) := by
  refine ⟨fresh app, a.prepared app, populate_eq s a app, rfl, rfl, fun j => ?_,
    bindSlots_take s a app⟩
  exact ⟨app.bound j, .fresh (app.bound j), Application.entry_eq app j, record_fresh app j,
    Arena.contextAt_prepared a app j, Context.starts_fresh _,
    fun p => Arena.get?_prepared_of_below a app⟩

end Scheduler
end RoundRobin

import RoundRobin.Proofs.Kernel.Delay
import RoundRobin.Proofs.Kernel.Handover

/-!
How long a ready task waits. Every switch takes the turn some way round the table, and never past a
ready task: the slots selected before that task's own are, in order, among those tried before it
from the start. Main statement: `selected_within_four`.
-/

namespace RoundRobin

namespace Scheduler

/-! ## The slots before a ready one -/

/-- The slots that are tried before slot `j` when the search starts after slot `c`. -/
def ahead (c j : Slot) : List Slot := (rotation c).takeWhile (· ≠ j)

theorem nodup_ahead (c j : Slot) : (ahead c j ++ [j]).Nodup := by
  revert c j
  decide

/-- From a slot on the way, the rest of the way is still to go. -/
theorem cons_ahead_sublist {c i j : Slot} (h : i ∈ ahead c j) :
    (i :: ahead i j).Sublist (ahead c j) := by
  revert c i j
  decide +kernel

/-- At most three other application slots are on the way to one. -/
theorem length_filter_ahead {c j : Slot} (h : j ≠ idleSlot) :
    ((ahead c j).filter (· ≠ idleSlot)).length ≤ 3 := by
  revert c j
  decide

theorem mem_takeWhile_of_find? {p : Slot → Bool} {l : List Slot} {i j : Slot}
    (hi : l.find? p = some i) (hj : p j = true) (hn : i ≠ j) : i ∈ l.takeWhile (· ≠ j) := by
  induction l with
  | nil => cases hi
  | cons a l ih =>
    cases ha : p a with
    | true =>
      rw [List.find?_cons_of_pos ha] at hi
      cases hi
      simp [hn]
    | false =>
      rw [List.find?_cons_of_neg (by simp [ha])] at hi
      have hne : a ≠ j := by
        rintro rfl
        rw [hj] at ha
        cases ha
      rw [List.takeWhile_cons_of_pos (by simpa using hne)]
      exact List.mem_cons_of_mem a (ih hi)

/-- The search does not pass a candidate. -/
theorem next_mem_ahead {s : Scheduler} {j : Slot} (hc : s.current.toNat < 5)
    (hj : s.isCandidate j = true) (hn : s.next ≠ j) : s.next ∈ ahead s.resident j := by
  rw [ahead, val_resident hc]
  cases hf : (rotation s.current.toNat).find? s.isCandidate with
  | none => exact absurd hj (List.find?_eq_none.mp hf j (mem_rotation _ j))
  | some i =>
    have hi : s.next = i := by
      rw [next, hf]
      rfl
    rw [hi] at hn ⊢
    exact mem_takeWhile_of_find? hf hj hn

end Scheduler

namespace Kernel

variable {k : Kernel Latch} {j : Slot} {o : Operation} {ps : List Operation}

/-! ## Going to sleep -/

/-- Whether the task of application slot `j` puts itself to sleep by an operation. A delay that
overflows does not. -/
def sleeps (k : Kernel Latch) (j : Slot) : Operation → Bool
  | .delay n => k.resident = j ∧ k.now.toNat + n.toNat < UInt64.size
  | _ => false

/-- The task of slot `j` does not put itself to sleep. -/
def Wakeful (k : Kernel Latch) (j : Slot) : List Operation → Prop
  | [] => True
  | o :: ps => k.sleeps j o = false ∧ (k.after o).Wakeful j ps

/-- The slots that the switches of a series select, in order. -/
def turns (k : Kernel Latch) (ps : List Operation) : List Slot :=
  (k.handovers ps).map Handover.incoming

/-- The task of slot `j` does not put itself to sleep before a switch selects it. -/
def Waits (k : Kernel Latch) (j : Slot) : List Operation → Prop
  | [] => True
  | o :: ps => k.sleeps j o = false ∧ (j ∈ k.turns [o] ∨ (k.after o).Waits j ps)

def decidableWakeful (k : Kernel Latch) (j : Slot) :
    (ps : List Operation) → Decidable (k.Wakeful j ps)
  | [] => isTrue trivial
  | o :: ps =>
    have := decidableWakeful (k.after o) j ps
    inferInstanceAs (Decidable (k.sleeps j o = false ∧ (k.after o).Wakeful j ps))

instance (k : Kernel Latch) (j : Slot) (ps : List Operation) : Decidable (k.Wakeful j ps) :=
  k.decidableWakeful j ps

def decidableWaits (k : Kernel Latch) (j : Slot) :
    (ps : List Operation) → Decidable (k.Waits j ps)
  | [] => isTrue trivial
  | o :: ps =>
    have := decidableWaits (k.after o) j ps
    inferInstanceAs
      (Decidable (k.sleeps j o = false ∧ (j ∈ k.turns [o] ∨ (k.after o).Waits j ps)))

instance (k : Kernel Latch) (j : Slot) (ps : List Operation) : Decidable (k.Waits j ps) :=
  k.decidableWaits j ps

/-- How the turn comes to slot `j`: among the first four switches, if there are as many, and until
then neither to the idle slot nor to any slot twice. -/
structure Reaches (k : Kernel Latch) (j : Slot) (ps : List Operation) : Prop where
  all : (k.turns ps).length = (ps.filterMap Operation.argument?).length
  soon : 4 ≤ (k.turns ps).length → j ∈ (k.turns ps).take 4
  busy : idleSlot ∉ (k.turns ps).takeWhile (· ≠ j)
  distinct : ((k.turns ps).takeWhile (· ≠ j) ++ [j]).Nodup

theorem sleeps_eq_false_iff {n : UInt32} :
    k.sleeps j (.delay n) = false ↔
      (k.resident = j → ¬ k.now.toNat + n.toNat < UInt64.size) := by
  simp [sleeps]

theorem status_after (hc : k.current.toNat < 5) (hs : k.sleeps j o = false)
    (hr : (k.record j).status = .ready) : ((k.after o).record j).status = .ready := by
  cases o with
  | populate app =>
    rw [after_populate]
    split
    · exact hr
    · rw [record_filled]
      rfl
  | tick =>
    rw [after_tick]
    split
    · rw [record_ticked]
      split
      · exact hr
      · exact (Record.wakeAt_status_eq_ready_iff _ _).mpr (.inl hr)
    · exact hr
  | delay n =>
    rw [after_delay hc]
    split
    · next hd =>
      rw [record_slept, if_neg fun hj => sleeps_eq_false_iff.mp hs hj hd.2]
      exact hr
    · exact hr
  | request => exact hr
  | take => exact hr
  | swap w =>
    rw [after_swap hc]
    exact (Scheduler.status_swapped _ w j).trans hr

/-- The wake law for one slot, whether operations fault or not. -/
theorem follows_after {last : Option Delay} (hc : k.current.toNat < 5) (hp : k.populated = true)
    (hj : j ≠ idleSlot) (hs : k.sleeps j o = false) (h : (k.record j).Follows k.now last) :
    ((k.after o).record j).Follows (k.after o).now last := by
  cases o with
  | populate app =>
    rw [after_populate, if_pos hp]
    exact h
  | tick =>
    rw [after_tick]
    split
    · next hn =>
      rw [record_ticked, if_neg hj]
      exact h.wakeAt hn
    · exact h
  | delay n =>
    rw [after_delay hc]
    split
    · next hd =>
      rw [record_slept, if_neg fun hj => sleeps_eq_false_iff.mp hs hj hd.2]
      exact h
    · exact h
  | request => exact h
  | take => exact h
  | swap w =>
    rw [after_swap hc, record_swapped]
    split <;> exact h

theorem follows_run {last : Option Delay} (hc : k.current.toNat < 5) (hp : k.populated = true)
    (hj : j ≠ idleSlot) (hw : k.Wakeful j ps) (h : (k.record j).Follows k.now last) :
    ((k.run ps).record j).Follows (k.run ps).now last := by
  induction ps generalizing k with
  | nil => exact h
  | cons o ps ih =>
    obtain ⟨hs, hw⟩ := hw
    exact ih (current_after hc o) (populated_after hc hp o) hw (follows_after hc hp hj hs h)

/-- A task that has slept past its wake tick is ready. -/
theorem status_of_follows {r : Record} {t now : UInt64} {n : UInt32}
    (h : r.Follows now (some (t, n))) (hn : t.toNat + max n.toNat 1 ≤ now.toNat) :
    r.status = .ready := by
  obtain ⟨-, -, hb⟩ := h
  cases hs : r.status with
  | ready => rfl
  | blocked => exact absurd (hb.mp hs) (Nat.not_lt.mpr hn)

/-! ## The turns of a run -/

theorem turns_cons_of_argument_none (h : o.argument? = none) :
    k.turns (o :: ps) = (k.after o).turns ps := by
  rw [turns, handovers, handover?_of_argument_none h]
  rfl

theorem turns_cons_swap (hc : k.current.toNat < 5) (w : Word) :
    k.turns (.swap w :: ps) = k.scheduler.next :: (k.after (.swap w)).turns ps := by
  rw [turns, handovers, handover?_swap hc]
  rfl

/-- The step of the argument: a switch that does not select a ready slot selects one on the way
there, and the way from that one is shorter. -/
theorem takeWhile_turns_sublist (hc : k.current.toNat < 5) (hp : k.populated = true)
    (hj : j ≠ idleSlot) (hr : (k.record j).status = .ready) (hw : k.Waits j ps) :
    ((k.turns ps).takeWhile (· ≠ j)).Sublist (Scheduler.ahead k.resident j) ∧
      idleSlot ∉ (k.turns ps).takeWhile (· ≠ j) := by
  induction ps generalizing k with
  | nil => exact ⟨List.nil_sublist _, List.not_mem_nil⟩
  | cons o ps ih =>
    obtain ⟨hs, hw⟩ := hw
    have hc' := current_after hc o
    have hp' := populated_after hc hp o
    have hr' := status_after hc hs hr
    cases ho : o.argument? with
    | none =>
      have hn : j ∉ k.turns [o] := by
        rw [turns_cons_of_argument_none ho]
        exact List.not_mem_nil
      have hres : (k.after o).resident = k.resident :=
        Scheduler.resident_congr (after_of_argument_none hc hp ho).1
      rw [turns_cons_of_argument_none ho, ← hres]
      exact ih hc' hp' hr' (hw.resolve_left hn)
    | some w =>
      obtain rfl := Operation.eq_swap_of_argument ho
      rw [turns_cons_swap hc]
      by_cases hn : k.scheduler.next = j
      · simp [hn]
      · have hcand : k.scheduler.isCandidate j = true :=
          (Scheduler.isCandidate_iff _ j).mpr ⟨hj, hr⟩
        have hidle : k.scheduler.next ≠ idleSlot := fun hi => by
          have hb := (Scheduler.next_eq_idleSlot_iff _).mp hi j hj
          cases hr.symm.trans hb
        have hm : j ∉ k.turns [.swap w] := by
          rw [turns_cons_swap hc, List.mem_cons, not_or]
          exact ⟨Ne.symm hn, List.not_mem_nil⟩
        obtain ⟨hsub, hbusy⟩ := ih hc' hp' hr' (hw.resolve_left hm)
        have hres : (k.after (.swap w)).resident = k.scheduler.next := by
          rw [after_swap hc, resident_swapped]
        rw [hres] at hsub
        rw [List.takeWhile_cons_of_pos (by simpa using hn)]
        constructor
        · exact (hsub.cons_cons _).trans
            (Scheduler.cons_ahead_sublist (Scheduler.next_mem_ahead hc hcand hn))
        · rw [List.mem_cons, not_or]
          exact ⟨Ne.symm hidle, hbusy⟩

theorem mem_take_of_length_takeWhile {l : List Slot} {n : Nat}
    (hn : (l.takeWhile (· ≠ j)).length < n) (hl : n ≤ l.length) : j ∈ l.take n := by
  induction l generalizing n with
  | nil => exact absurd (Nat.lt_of_lt_of_le hn hl) (Nat.not_lt_zero _)
  | cons i l ih =>
    obtain ⟨n, rfl⟩ : ∃ m, n = m + 1 := ⟨n - 1, by omega⟩
    rw [List.take_succ_cons, List.mem_cons]
    by_cases hi : i = j
    · exact .inl hi.symm
    · rw [List.takeWhile_cons_of_pos (by simpa using hi), List.length_cons] at hn
      exact .inr (ih (Nat.lt_of_succ_lt_succ hn) (Nat.le_of_succ_le_succ hl))

theorem reaches_of_waits (hc : k.current.toNat < 5) (hp : k.populated = true)
    (hj : j ≠ idleSlot) (hr : (k.record j).status = .ready) (hw : k.Waits j ps) :
    k.Reaches j ps := by
  obtain ⟨hsub, hbusy⟩ := takeWhile_turns_sublist hc hp hj hr hw
  have hlen : ((k.turns ps).takeWhile (· ≠ j)).length ≤ 3 := by
    have hf : ((k.turns ps).takeWhile (· ≠ j)).filter (· ≠ idleSlot) =
        (k.turns ps).takeWhile (· ≠ j) := by
      refine List.filter_eq_self.mpr fun i hi => ?_
      simpa using fun he : i = idleSlot => hbusy (he ▸ hi)
    have hle := (hsub.filter (· ≠ idleSlot)).length_le
    rw [hf] at hle
    exact Nat.le_trans hle (Scheduler.length_filter_ahead hj)
  refine ⟨?_, fun h => mem_take_of_length_takeWhile (Nat.lt_succ_of_le hlen) h, hbusy, ?_⟩
  · rw [turns, List.length_map, ← left_handovers hc ps, List.length_map]
  · exact (hsub.append_right [j]).nodup (Scheduler.nodup_ahead _ j)

/-- **Bounded waiting.** In every run after the table is filled, a ready task is selected by one of
the next four switches, unless it puts itself to sleep before; until then no switch selects the idle
slot, and none a slot that was selected before. The same holds for a task that has slept, from its
wake tick on. -/
theorem selected_within_four (before os ps : List Operation) (app : Application) (j : Slot)
    (hb : ((blank Latch.clear).run before).populated = false) (hj : j ≠ idleSlot) :
    let k := (primed before app).run os
    ((k.record j).status = .ready → k.Waits j ps → k.Reaches j ps) ∧
    ∀ n us, k.resident = j → k.now.toNat + n.toNat < UInt64.size →
      let k₁ := k.after (.delay n)
      let k₂ := k₁.run us
      k₁.Wakeful j us → k.now.toNat + max n.toNat 1 ≤ k₂.now.toNat →
        k₂.Waits j ps → k₂.Reaches j ps := by
  intro k
  have hc₀ : (primed before app).current.toNat < 5 := current_run (current_blank _) _
  have hp₀ : (primed before app).populated = true := by
    rw [primed_eq hb]
    rfl
  have hc : k.current.toNat < 5 := current_run hc₀ os
  have hp : k.populated = true := populated_run hc₀ hp₀ os
  refine ⟨reaches_of_waits hc hp hj, ?_⟩
  intro n us hres hn k₁ k₂ hw hwake
  have hc₁ : k₁.current.toNat < 5 := current_after hc _
  have hp₁ : k₁.populated = true := populated_after hc hp _
  have hk₁ : k₁ = (k.withScheduler (k.scheduler.slept n)).pended := by
    rw [show k₁ = k.after (.delay n) from rfl, after_delay hc, if_pos ⟨hres ▸ hj, hn⟩]
  have hasleep : (k₁.record j).Follows k₁.now (some (k.now, n)) := by
    rw [hk₁, record_slept, if_pos hres]
    exact Record.follows_blockedUntil _ hn
  have hawake : (k₂.record j).status = .ready :=
    status_of_follows (follows_run hc₁ hp₁ hj hw hasleep) hwake
  exact reaches_of_waits (current_run hc₁ us) (populated_run hc₁ hp₁ us) hj hawake

/-- Four switches, between which two tasks go to sleep and one of them wakes. -/
def bustle : List Operation :=
  [.swap .null, .delay 1, .swap .null, .tick, .swap .null, .delay 0, .swap .null, .tick]

/-- The first task, which is the current one, waits until all others have had their turn; and again
when it has slept for a tick in which the second task has run. -/
theorem selected_within_four_bustle :
    ((blank Latch.clear).run [.delay 9]).populated = false ∧
    let k := (primed [.delay 9] .numbered).run [.tick]
    let k₁ := k.after (.delay 1)
    let k₂ := k₁.run [.swap .null, .tick]
    ((k.record 1).status = .ready ∧ k.Waits 1 bustle ∧ k.turns bustle = [2, 3, 4, 1] ∧
      k.Reaches 1 bustle) ∧
    (k.resident = 1 ∧ k.now = 1 ∧ k₁.Wakeful 1 [.swap .null, .tick] ∧ k₂.now = 2 ∧
      k₂.Waits 1 bustle ∧ k₂.turns bustle = [3, 4, 1, 2] ∧ k₂.Reaches 1 bustle) := by
  have hb : ((blank Latch.clear).run [.delay 9]).populated = false := rfl
  obtain ⟨hready, hslept⟩ :=
    selected_within_four [.delay 9] [.tick] bustle .numbered 1 hb (by decide)
  refine ⟨hb, ?_⟩
  intro k k₁ k₂
  have h₀ : (k.record 1).status = .ready ∧ k.Waits 1 bustle ∧ k.turns bustle = [2, 3, 4, 1] := by
    decide +kernel +zetaReduce
  have h₁ : k.resident = 1 ∧ k.now = 1 ∧ k₁.Wakeful 1 [.swap .null, .tick] := by
    decide +kernel +zetaReduce
  have h₂ : k₂.now = 2 ∧ k₂.Waits 1 bustle ∧ k₂.turns bustle = [3, 4, 1, 2] := by
    decide +kernel +zetaReduce
  refine ⟨⟨h₀.1, h₀.2.1, h₀.2.2, hready h₀.1 h₀.2.1⟩,
    h₁.1, h₁.2.1, h₁.2.2, h₂.1, h₂.2.1, h₂.2.2, ?_⟩
  refine hslept 1 _ h₁.1 ?_ h₁.2.2 ?_ h₂.2.1
  · rw [h₁.2.1]
    decide
  · rw [h₁.2.1, h₂.1]
    decide

end Kernel
end RoundRobin

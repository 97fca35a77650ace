import RoundRobin.Proofs.Kernel.Effect

/-!
Which stack pointer a switch hands out. The switches of a run are logged as handovers, and the log
alone tells every pointer: a task gets back the one it last left, or the one it was given when the
table was filled. Main statement: `found_eq_lastLeft`.
-/

namespace RoundRobin

/-- A switch: the slot that went out and the pointer it left, the slot that came in and the pointer
it found. -/
structure Handover where
  outgoing : Slot
  left : Word
  incoming : Slot
  found : Word
  deriving DecidableEq, Repr

/-- The pointer that the task of slot `j` left last. -/
def lastLeft (j : Slot) : List Handover → Option Word
  | [] => none
  | h :: log => (lastLeft j log).or (if h.outgoing = j then some h.left else none)

theorem lastLeft_append (j : Slot) (log more : List Handover) :
    lastLeft j (log ++ more) = (lastLeft j more).or (lastLeft j log) := by
  induction log with
  | nil => rw [lastLeft, Option.or_none, List.nil_append]
  | cons h log ih => rw [List.cons_append, lastLeft, ih, lastLeft, Option.or_assoc]

theorem lastLeft_eq_none_iff (j : Slot) (log : List Handover) :
    lastLeft j log = none ↔ j ∉ log.map Handover.outgoing := by
  induction log with
  | nil => simp [lastLeft]
  | cons h log ih =>
    rw [lastLeft, Option.or_eq_none_iff, ih]
    by_cases hj : h.outgoing = j
    · simp [hj]
    · simp [hj, Ne.symm hj]

theorem mem_of_lastLeft {j : Slot} {log : List Handover} {w : Word}
    (h : lastLeft j log = some w) : ∃ g ∈ log, g.left = w := by
  induction log with
  | nil => cases h
  | cons g log ih =>
    rw [lastLeft] at h
    cases hl : lastLeft j log with
    | some v =>
      rw [hl, Option.some_or] at h
      obtain ⟨g', hg', he⟩ := ih (hl.trans h)
      exact ⟨g', List.mem_cons_of_mem _ hg', he⟩
    | none =>
      rw [hl, Option.none_or] at h
      split at h
      · exact ⟨g, List.mem_cons_self, Option.some.inj h⟩
      · cases h

/-- Every task finds what it left last, or its first pointer. -/
def Returned (log : List Handover) : Prop :=
  ∀ us h vs, log = us ++ h :: vs →
    h.found = (lastLeft h.incoming (us ++ [h])).getD (firstPointer h.incoming)

theorem Returned.append {log : List Handover} (hl : Returned log) {g : Handover}
    (hg : g.found = (lastLeft g.incoming (log ++ [g])).getD (firstPointer g.incoming)) :
    Returned (log ++ [g]) := by
  intro us h vs he
  rcases List.eq_nil_or_concat vs with rfl | ⟨ws, g', rfl⟩
  · obtain ⟨rfl, hh⟩ := List.append_inj' he rfl
    obtain rfl : g = h := List.head_eq_of_cons_eq hh
    exact hg
  · rw [List.concat_eq_append, ← List.cons_append, ← List.append_assoc] at he
    exact hl us h ws (List.append_inj' he rfl).1

/-- The slots that went out, up to some handover, are the first slot and those that had come in. -/
theorem outgoing_eq_of_chain {log us vs : List Handover} {h : Handover} {last : Slot}
    (hc : log.map Handover.outgoing ++ [last] = firstSlot :: log.map Handover.incoming)
    (he : log = us ++ h :: vs) :
    (us ++ [h]).map Handover.outgoing = firstSlot :: us.map Handover.incoming := by
  subst he
  have hs : (us ++ [h]).map Handover.outgoing ++ (vs.map Handover.outgoing ++ [last]) =
      firstSlot :: us.map Handover.incoming ++ (h :: vs).map Handover.incoming := by
    simpa using hc
  exact (List.append_inj hs (by simp)).1

/-- While no argument is a first pointer, these are handed out once each, to their own slots. -/
theorem found_eq_firstPointer_iff {log us vs : List Handover} {h : Handover} {last : Slot}
    (hr : Returned log)
    (hc : log.map Handover.outgoing ++ [last] = firstSlot :: log.map Handover.incoming)
    (hf : ∀ g ∈ log, ∀ j, g.left ≠ firstPointer j) (he : log = us ++ h :: vs) (j : Slot) :
    h.found = firstPointer j ↔
      h.incoming = j ∧ j ≠ firstSlot ∧ ∀ g ∈ us, g.incoming ≠ j := by
  have ho := outgoing_eq_of_chain hc he
  have hn : lastLeft j (us ++ [h]) = none ↔ j ≠ firstSlot ∧ ∀ g ∈ us, g.incoming ≠ j := by
    rw [lastLeft_eq_none_iff, ho]
    simp [eq_comm]
  have hh := hr us h vs he
  constructor
  · intro hj
    cases hl : lastLeft h.incoming (us ++ [h]) with
    | some w =>
      obtain ⟨g, hg, rfl⟩ := mem_of_lastLeft hl
      have hm : g ∈ log := by
        rw [he]
        simp only [List.mem_append, List.mem_cons, List.not_mem_nil, or_false] at hg ⊢
        rcases hg with hg | hg
        · exact .inl hg
        · exact .inr (.inl hg)
      rw [hl, Option.getD_some] at hh
      exact absurd (hh.symm.trans hj) (hf g hm j)
    | none =>
      rw [hl, Option.getD_none, hj] at hh
      obtain rfl := firstPointer_inj.mp hh.symm
      exact ⟨rfl, hn.mp hl⟩
  · rintro ⟨rfl, hj⟩
    rw [hh, hn.mpr hj, Option.getD_none]

/-- The argument of a switch. -/
def Operation.argument? : Operation → Option Word
  | .swap w => some w
  | _ => none

theorem Operation.eq_swap_of_argument {o : Operation} {w : Word} (h : o.argument? = some w) :
    o = .swap w := by
  cases o with
  | swap v => exact congrArg Operation.swap (Option.some.inj h)
  | _ => cases h

namespace Kernel

variable {k : Kernel Latch}

/-- The handover that an operation makes, if it is a switch and answers with a pointer. -/
def handover? (k : Kernel Latch) (o : Operation) : Option Handover :=
  match o.argument?, perform o k with
  | some left, .ok (.incoming found) k' => some ⟨k.resident, left, k'.resident, found⟩
  | _, _ => none

/-- The log of a series of operations. -/
def handovers (k : Kernel Latch) : List Operation → List Handover
  | [] => []
  | o :: os => (k.handover? o).toList ++ (k.after o).handovers os

theorem handover?_swap (hc : k.current.toNat < 5) (w : Word) :
    k.handover? (.swap w) = some ⟨k.resident, w, k.scheduler.next,
      ((k.scheduler.swapped w).record k.scheduler.next).stackPointer⟩ := by
  simp only [handover?, Operation.argument?, perform_swap hc, Option.some.injEq,
    Handover.mk.injEq, true_and, and_true]
  exact resident_swapped k w

theorem handover?_of_argument_none {o : Operation} (h : o.argument? = none) :
    k.handover? o = none := by
  simp only [handover?, h]

/-- Nothing but a switch changes a saved pointer or the current slot, once the table is filled. -/
theorem after_of_argument_none (hc : k.current.toNat < 5) (hp : k.populated = true)
    {o : Operation} (h : o.argument? = none) :
    (k.after o).current = k.current ∧ (k.after o).populated = true ∧
      ∀ j, ((k.after o).record j).stackPointer = (k.record j).stackPointer := by
  cases o with
  | populate app =>
    rw [after_populate, if_pos hp]
    exact ⟨rfl, hp, fun _ => rfl⟩
  | tick =>
    rw [after_tick]
    split
    · exact ⟨rfl, hp, Scheduler.stackPointer_ticked _⟩
    · exact ⟨rfl, hp, fun _ => rfl⟩
  | delay n =>
    rw [after_delay hc]
    split
    · exact ⟨rfl, hp, Scheduler.stackPointer_slept _ n⟩
    · exact ⟨rfl, hp, fun _ => rfl⟩
  | request => exact ⟨rfl, hp, fun _ => rfl⟩
  | take => exact ⟨rfl, hp, fun _ => rfl⟩
  | swap w => cases h

/-- A kernel with a filled table and the log of its switches so far. -/
structure Logged (k : Kernel Latch) (log : List Handover) : Prop where
  current : k.current.toNat < 5
  populated : k.populated = true
  chain : log.map Handover.outgoing ++ [k.resident] = firstSlot :: log.map Handover.incoming
  pointers : ∀ j, (k.record j).stackPointer = (lastLeft j log).getD (firstPointer j)
  returned : Returned log

theorem logged_filled (k : Kernel Latch) (app : Application) : (k.filled app).Logged [] := by
  refine ⟨Scheduler.current_fresh app, rfl, rfl, ?_, ?_⟩
  · intro j
    rw [record_filled]
    rfl
  · intro us h vs he
    cases us <;> cases he

theorem Logged.after {log : List Handover} (h : k.Logged log) (o : Operation) :
    (k.after o).Logged (log ++ (k.handover? o).toList) := by
  cases ho : o.argument? with
  | none =>
    obtain ⟨hc, hp, hr⟩ := after_of_argument_none h.current h.populated ho
    have hres : (k.after o).resident = k.resident := Scheduler.resident_congr hc
    rw [handover?_of_argument_none ho, Option.toList_none, List.append_nil]
    exact ⟨hc ▸ h.current, hp, hres ▸ h.chain, fun j => (hr j).trans (h.pointers j), h.returned⟩
  | some w =>
    obtain rfl := Operation.eq_swap_of_argument ho
    have hc := current_after h.current (.swap w)
    have hl (j : Slot) : ((k.scheduler.swapped w).record j).stackPointer =
        (lastLeft j (log ++ [⟨k.resident, w, k.scheduler.next,
          ((k.scheduler.swapped w).record k.scheduler.next).stackPointer⟩])).getD
            (firstPointer j) := by
      rw [lastLeft_append, Scheduler.record_swapped]
      by_cases hj : k.scheduler.resident = j
      · simp [lastLeft, resident, hj]
      · simp only [lastLeft, resident, hj, if_false, Option.or_none, Option.none_or]
        exact h.pointers j
    rw [handover?_swap h.current, Option.toList_some]
    rw [after_swap h.current] at hc ⊢
    refine ⟨hc, h.populated, ?_, hl, h.returned.append (hl _)⟩
    rw [List.map_append, List.map_append, ← List.cons_append, ← h.chain, resident_swapped]
    rfl

theorem Logged.run {log : List Handover} (h : k.Logged log) (os : List Operation) :
    (k.run os).Logged (log ++ k.handovers os) := by
  induction os generalizing k log with
  | nil =>
    rw [handovers, List.append_nil]
    exact h
  | cons o os ih =>
    rw [handovers, ← List.append_assoc]
    exact ih (h.after o)

/-- Every switch is in the log: none of them faults. -/
theorem left_handovers (hc : k.current.toNat < 5) (os : List Operation) :
    (k.handovers os).map Handover.left = os.filterMap Operation.argument? := by
  induction os generalizing k with
  | nil => rfl
  | cons o os ih =>
    rw [handovers, List.map_append, ih (current_after hc o)]
    cases ho : o.argument? with
    | none => rw [handover?_of_argument_none ho, List.filterMap_cons_none ho]; rfl
    | some w =>
      obtain rfl := Operation.eq_swap_of_argument ho
      rw [handover?_swap hc, List.filterMap_cons_some ho]
      rfl

/-- **No context is lost, doubled or misdirected.** In every run after the table is filled, every
switch answers; the slot that goes out is the one that came in last; and the pointer handed to a
task is the one it left last, or else its first one. -/
theorem found_eq_lastLeft (before os : List Operation) (app : Application)
    (hb : ((blank Latch.clear).run before).populated = false) :
    let k := (primed before app).run os
    let log := (primed before app).handovers os
    log.map Handover.left = os.filterMap Operation.argument? ∧
    k.current.toNat = k.resident.val ∧
    log.map Handover.outgoing ++ [k.resident] = firstSlot :: log.map Handover.incoming ∧
    (∀ j, ((primed before app).record j).stackPointer = firstPointer j) ∧
    (∀ us h vs, log = us ++ h :: vs →
      h.found = (lastLeft h.incoming (us ++ [h])).getD (firstPointer h.incoming)) ∧
    ((∀ h ∈ log, ∀ j, h.left ≠ firstPointer j) → ∀ us h vs, log = us ++ h :: vs → ∀ j,
      (h.found = firstPointer j ↔
        h.incoming = j ∧ j ≠ firstSlot ∧ ∀ g ∈ us, g.incoming ≠ j)) ∧
    ∀ o : Operation, (∀ w, o ≠ .swap w) →
      ∀ j, ((k.after o).record j).stackPointer = (k.record j).stackPointer := by
  intro k log
  have h₀ : (primed before app).Logged [] := by
    rw [primed_eq hb]
    exact logged_filled _ app
  have h : k.Logged log := h₀.run os
  refine ⟨left_handovers h₀.current os, (val_resident h.current).symm, h.chain, h₀.pointers,
    h.returned, ?_, ?_⟩
  · intro hf us g vs he j
    exact found_eq_firstPointer_iff h.returned h.chain hf he j
  · intro o ho j
    have hn : o.argument? = none := by
      cases o with
      | swap w => exact absurd rfl (ho w)
      | _ => rfl
    exact (after_of_argument_none h.current h.populated hn).2.2 j

/-- Three tasks go to sleep one after the other; the remaining one is then switched to itself. -/
def lastAwake : List Operation :=
  [.swap (.number 16), .delay 9, .swap (.number 32), .delay 9, .swap (.number 48), .delay 9,
    .swap (.number 64), .swap (.number 17)]

theorem found_eq_lastLeft_lastAwake :
    ((blank Latch.clear).run []).populated = false ∧
    let log := (primed [] .numbered).handovers lastAwake
    log.map Handover.found =
      [firstPointer 2, firstPointer 3, firstPointer 4, .number 16, .number 17] ∧
    ∀ us h vs, log = us ++ h :: vs →
      h.found = (lastLeft h.incoming (us ++ [h])).getD (firstPointer h.incoming) := by
  have hb : ((blank Latch.clear).run []).populated = false := rfl
  obtain ⟨-, -, -, -, h, -⟩ := found_eq_lastLeft [] lastAwake .numbered hb
  exact ⟨hb, by decide +kernel, h⟩

end Kernel
end RoundRobin

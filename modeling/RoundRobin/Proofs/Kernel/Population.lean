import RoundRobin.Proofs.Kernel.Effect

/-!
The task table is filled once in the life of a kernel. Operations are allowed before that and may
change every field of the table; the first filling wipes all of it out, and no later one is obeyed.
Main statement: `filled_exactly_once`.
-/

namespace RoundRobin

/-- The application that an operation tries to fill the table for. -/
def Operation.application? : Operation → Option Application
  | .populate app => some app
  | _ => none

namespace Kernel

variable {k : Kernel Latch} {first : Option Application}

/-- A kernel whose table was filled for the application `first`, or not at all. -/
structure FilledFor (k : Kernel Latch) (first : Option Application) : Prop where
  current : k.current.toNat < 5
  populated : k.populated = first.isSome
  arena : k.arena = first.elim .zeroed Arena.zeroed.prepared
  entry : ∀ app ∈ first, ∀ j, (k.record j).entry = app.bound j

theorem filledFor_blank : (blank Latch.clear).FilledFor none :=
  ⟨current_blank _, rfl, rfl, nofun⟩

/-- Whether the table is filled, the stacks and the entry points stay as they are when an operation
does not fill the table. -/
theorem after_of_not_filling (hc : k.current.toNat < 5) {o : Operation}
    (ho : o.application? = none ∨ k.populated = true) :
    (k.after o).populated = k.populated ∧ (k.after o).arena = k.arena ∧
      ∀ j, ((k.after o).record j).entry = (k.record j).entry := by
  cases o with
  | populate app =>
    have hp : k.populated = true := ho.resolve_left nofun
    rw [after_populate, if_pos hp]
    exact ⟨rfl, rfl, fun _ => rfl⟩
  | tick =>
    rw [after_tick]
    split
    · refine ⟨rfl, rfl, fun j => ?_⟩
      rw [record_ticked]
      split <;> simp
    · exact ⟨rfl, rfl, fun _ => rfl⟩
  | delay n =>
    rw [after_delay hc]
    split
    · refine ⟨rfl, rfl, fun j => ?_⟩
      rw [record_slept]
      split <;> rfl
    · exact ⟨rfl, rfl, fun _ => rfl⟩
  | request => exact ⟨rfl, rfl, fun _ => rfl⟩
  | take => exact ⟨rfl, rfl, fun _ => rfl⟩
  | swap w =>
    rw [after_swap hc]
    refine ⟨rfl, rfl, fun j => ?_⟩
    rw [record_swapped]
    split <;> rfl

theorem FilledFor.kept (h : k.FilledFor first) {o : Operation}
    (ho : o.application? = none ∨ k.populated = true) : (k.after o).FilledFor first := by
  obtain ⟨hp, ha, he⟩ := after_of_not_filling h.current ho
  refine ⟨current_after h.current o, hp.trans h.populated, ha.trans h.arena, ?_⟩
  intro app happ j
  rw [he j, h.entry app happ j]

theorem FilledFor.filled (h : k.FilledFor none) (app : Application) :
    (k.filled app).FilledFor (some app) := by
  refine ⟨Scheduler.current_fresh app, rfl, congrArg (·.prepared app) h.arena, ?_⟩
  intro a ha j
  cases ha
  rw [record_filled]
  rfl

/-- The first application stays; the next one counts only if there was none. -/
theorem FilledFor.after (h : k.FilledFor first) (o : Operation) :
    (k.after o).FilledFor (first.or o.application?) := by
  cases first with
  | some app => exact h.kept (.inr h.populated)
  | none =>
    cases o with
    | populate app =>
      rw [after_populate, h.populated]
      exact h.filled app
    | _ => exact h.kept (.inl rfl)

theorem FilledFor.run (h : k.FilledFor first) (os : List Operation) :
    (k.run os).FilledFor (first.or (os.findSome? Operation.application?)) := by
  induction os generalizing k first with
  | nil => simpa using h
  | cons o os ih =>
    have hn := ih (h.after o)
    rw [run_cons, List.findSome?_cons]
    cases ho : o.application? with
    | none => simpa [ho] using hn
    | some app => simpa [ho, Option.or_assoc] using hn

/-- **The task table is filled exactly once.** In every run from the blank kernel: until the table is
filled for the first time, it is not said to be filled, and filling it goes through and makes a
scheduler and stacks in which nothing depends on the run so far; the request for a switch stays.
Ever after, the table is said to be filled, every slot keeps the entry point that the first
application binds to it, and every further attempt is refused and changes nothing. -/
theorem filled_exactly_once (os : List Operation) :
    let k := (blank Latch.clear).run os
    match os.findSome? Operation.application? with
    | none => k.populated = false ∧
        ∀ app, perform (.populate app) k =
          .ok (.populated (.ok ())) ⟨.fresh app, true, Arena.zeroed.prepared app, k.signal⟩
    | some first => k.populated = true ∧
        (∀ j : Slot, first.entry j.val.toUInt64 = .ok (k.record j).entry) ∧
        ∀ app, perform (.populate app) k = .ok (.populated (.error .alreadyPopulated)) k := by
  intro k
  have h : k.FilledFor (os.findSome? Operation.application?) := filledFor_blank.run os
  cases hf : os.findSome? Operation.application? with
  | none =>
    rw [hf] at h
    have ha : k.arena = .zeroed := h.arena
    refine ⟨h.populated, fun app => ?_⟩
    rw [← ha]
    exact Action.bind_of_ok (populate_of_false h.populated app)
  | some first =>
    rw [hf] at h
    refine ⟨h.populated, fun j => ?_, fun app => ?_⟩
    · rw [Application.entry_eq, h.entry first rfl j]
    · exact Action.bind_of_ok (populate_of_true h.populated app)

end Kernel
end RoundRobin

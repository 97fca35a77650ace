import RoundRobin.Proofs.Kernel.Effect

/-!
Whose turn it is. Between two steps of the system, unless a switch is asked for, the current task is
one that may go on: a ready application task, or the idle task if all others are blocked. Main
statement: `settled_unless_pending`.
-/

namespace RoundRobin

/-- A step of the system around the kernel. A request is taken only to be served at once. -/
inductive Move where
  | populate (app : Application)
  | tick
  | delay (ticks : UInt32)
  | request
  | swap (outgoing : Word)
  | serve (outgoing : Word)
  deriving DecidableEq, Repr

def Move.operations : Move → List Operation
  | populate app => [.populate app]
  | tick => [.tick]
  | delay n => [.delay n]
  | request => [.request]
  | swap w => [.swap w]
  | serve w => [.take, .swap w]

namespace Kernel

variable {k : Kernel Latch}

def move (k : Kernel Latch) (m : Move) : Kernel Latch := k.run m.operations

def moves (k : Kernel Latch) (ms : List Move) : Kernel Latch := ms.foldl move k

/-- The current task may go on. -/
def Settled (k : Kernel Latch) : Prop :=
  (k.resident ≠ idleSlot ∧ (k.record k.resident).status = .ready) ∨
  (k.resident = idleSlot ∧ ∀ j, j ≠ idleSlot → (k.record j).status = .blocked)

/-- Between two steps the current slot exists, the idle slot is ready, and the current task may go
on unless a switch is asked for. -/
structure Held (k : Kernel Latch) : Prop where
  current : k.current.toNat < 5
  idle : (k.record idleSlot).status = .ready
  settled : k.signal.pending = false → k.Settled

theorem held_blank : (blank Latch.clear).Held := by
  refine ⟨current_blank _, rfl, fun _ => .inl ⟨by decide, rfl⟩⟩

/-- A switch settles the matter, whatever the state before. -/
theorem settled_swap (hc : k.current.toNat < 5) (hi : (k.record idleSlot).status = .ready)
    (w : Word) :
    (k.after (.swap w)).Settled ∧
      ((k.after (.swap w)).record (k.after (.swap w)).resident).status = .ready ∧
      ((k.after (.swap w)).record idleSlot).status = .ready := by
  have hs (j : Slot) : ((k.withScheduler (k.scheduler.swapped w)).record j).status =
      (k.record j).status := Scheduler.status_swapped _ w j
  rw [after_swap hc, resident_swapped, hs, hs]
  refine ⟨?_, Scheduler.status_next hi, hi⟩
  rw [Settled, resident_swapped, hs]
  by_cases hn : k.scheduler.next = idleSlot
  · exact .inr ⟨hn, fun j hj => (hs j).trans ((Scheduler.next_eq_idleSlot_iff _).mp hn j hj)⟩
  · exact .inl ⟨hn, Scheduler.status_next hi⟩

theorem Held.after (h : k.Held) {o : Operation} (ho : o ≠ .take) : (k.after o).Held := by
  have hpend {k' : Kernel Latch} (hs : k'.signal = ⟨true⟩) :
      k'.signal.pending = false → k'.Settled := by
    rw [hs]
    intro hf
    cases hf
  cases o with
  | populate app =>
    rw [after_populate]
    split
    · exact h
    · have hne : firstSlot ≠ idleSlot := by decide
      refine ⟨Scheduler.current_fresh app, ?_, fun _ => .inl ⟨hne, ?_⟩⟩
      · rw [record_filled]
        rfl
      · rw [record_filled]
        rfl
  | tick =>
    rw [after_tick]
    split
    · refine ⟨h.current, ?_, hpend rfl⟩
      rw [record_ticked, if_pos rfl]
      exact h.idle
    · exact h
  | delay n =>
    rw [after_delay h.current]
    split
    · next hd =>
      refine ⟨h.current, ?_, hpend rfl⟩
      rw [record_slept, if_neg hd.1]
      exact h.idle
    · exact h
  | request => exact ⟨h.current, h.idle, hpend rfl⟩
  | take => exact absurd rfl ho
  | swap w =>
    obtain ⟨hs, -, hi⟩ := settled_swap h.current h.idle w
    exact ⟨current_after h.current _, hi, fun _ => hs⟩

/-- Taking a request leaves the current task where it is, possibly unsettled; the switch that
follows at once settles it. -/
theorem Held.move (h : k.Held) (m : Move) : (k.move m).Held := by
  cases m with
  | populate app => exact h.after nofun
  | tick => exact h.after nofun
  | delay n => exact h.after nofun
  | request => exact h.after nofun
  | swap w => exact h.after nofun
  | serve w =>
    have hc : (k.after .take).current.toNat < 5 := h.current
    have hi : ((k.after .take).record idleSlot).status = .ready := h.idle
    obtain ⟨hs, -, hi⟩ := settled_swap hc hi w
    exact ⟨current_after hc _, hi, fun _ => hs⟩

theorem Held.moves (h : k.Held) (ms : List Move) : (k.moves ms).Held := by
  induction ms generalizing k with
  | nil => exact h
  | cons m ms ih => exact ih (h.move m)

/-- Who may pass the turn on: a switch, or the first filling of the table. -/
theorem current_move (h : k.Held) {m : Move} (hm : (k.move m).current ≠ k.current) :
    (∃ w, m = .swap w ∨ m = .serve w) ∨ k.populated = false ∧ ∃ app, m = .populate app := by
  cases m with
  | populate app =>
    cases hp : k.populated with
    | false => exact .inr ⟨rfl, app, rfl⟩
    | true =>
      exact absurd (congrArg Kernel.current ((after_populate k app).trans (if_pos hp))) hm
  | tick => exact absurd (current_after_tick k) hm
  | delay n => exact absurd (current_after_delay h.current n) hm
  | request => exact absurd rfl hm
  | swap w => exact .inl ⟨w, .inl rfl⟩
  | serve w => exact .inl ⟨w, .inr rfl⟩

/-- Serving takes the request away, and the switch that follows asks for no other. -/
theorem pending_serve (hc : k.current.toNat < 5) (w : Word) :
    (k.move (.serve w)).signal.pending = false := by
  have htaken : (k.after .take).current.toNat < 5 := hc
  have hserve : k.move (.serve w) = (k.after .take).after (.swap w) := rfl
  rw [hserve, after_swap htaken]
  rfl

/-- **The processor is held by the right task.** In every run from the blank kernel, whatever its
steps: while no switch is asked for, the current task may go on; the current slot exists and is
passed on only by a switch or by the first filling of the table; every switch leaves a ready task,
the idle one only if all others are blocked; and once a request is served none is left. -/
theorem settled_unless_pending (ms : List Move) :
    let k := (blank Latch.clear).moves ms
    k.current.toNat < 5 ∧ k.resident.val = k.current.toNat ∧
    (k.signal.pending = false → k.Settled) ∧
    (∀ m, (k.move m).current ≠ k.current →
      (∃ w, m = .swap w ∨ m = .serve w) ∨ k.populated = false ∧ ∃ app, m = .populate app) ∧
    (∀ m w, m = .swap w ∨ m = .serve w →
      ((k.move m).record (k.move m).resident).status = .ready ∧
      ((k.move m).resident = idleSlot →
        ∀ j, j ≠ idleSlot → ((k.move m).record j).status = .blocked)) ∧
    ∀ w, (k.move (.serve w)).signal.pending = false := by
  intro k
  have h : k.Held := held_blank.moves ms
  refine ⟨h.current, val_resident h.current, h.settled, fun m hm => current_move h hm, ?_,
    pending_serve h.current⟩
  have idle_last {k' : Kernel Latch} (hs : k'.Settled) (hi : k'.resident = idleSlot) :
      ∀ j, j ≠ idleSlot → (k'.record j).status = .blocked := by
    rcases hs with ⟨hn, -⟩ | ⟨-, hb⟩
    · exact absurd hi hn
    · exact hb
  rintro m w (rfl | rfl)
  · obtain ⟨hs, hr, -⟩ := settled_swap h.current h.idle w
    exact ⟨hr, idle_last hs⟩
  · have hc : (k.after .take).current.toNat < 5 := h.current
    have hi : ((k.after .take).record idleSlot).status = .ready := h.idle
    obtain ⟨hs, hr, -⟩ := settled_swap hc hi w
    exact ⟨hr, idle_last hs⟩

end Kernel
end RoundRobin

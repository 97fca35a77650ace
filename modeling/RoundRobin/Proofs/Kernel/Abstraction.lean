import RoundRobin.Proofs.Kernel.Effect
import RoundRobin.Proofs.Scheduler.Command

/-!
A kernel and a scheduler by itself. Neither stack pointers nor stacks have any influence on whose
turn it is: a kernel goes through the same slots, ticks and statuses as a scheduler that gets one
command for each operation that concerns it. Main statement: `tracks_run`.
-/

namespace RoundRobin

namespace Scheduler

variable {s t u : Scheduler}

/-- Two schedulers that differ in stack pointers and entry points at most. -/
structure Tracks (s t : Scheduler) : Prop where
  current : s.current = t.current
  ticks : s.ticks = t.ticks
  status : ∀ j, (s.record j).status = (t.record j).status
  wake : ∀ j, (s.record j).wake = (t.record j).wake

theorem Tracks.refl (s : Scheduler) : s.Tracks s := ⟨rfl, rfl, fun _ => rfl, fun _ => rfl⟩

theorem Tracks.symm (h : s.Tracks t) : t.Tracks s :=
  ⟨h.current.symm, h.ticks.symm, fun j => (h.status j).symm, fun j => (h.wake j).symm⟩

theorem Tracks.trans (h : s.Tracks t) (h' : t.Tracks u) : s.Tracks u :=
  ⟨h.current.trans h'.current, h.ticks.trans h'.ticks, fun j => (h.status j).trans (h'.status j),
    fun j => (h.wake j).trans (h'.wake j)⟩

theorem Tracks.resident (h : s.Tracks t) : s.resident = t.resident :=
  resident_congr h.current

theorem Tracks.ticked (h : s.Tracks t) : s.ticked.Tracks t.ticked := by
  refine ⟨h.current, congrArg (· + 1) h.ticks, fun j => ?_, fun j => ?_⟩
  · rw [record_ticked, record_ticked]
    split
    · exact h.status j
    · apply Status.eq_of_ready_iff
      rw [Record.wakeAt_status_eq_ready_iff, Record.wakeAt_status_eq_ready_iff, h.status, h.wake,
        h.ticks]
  · rw [record_ticked, record_ticked]
    split
    · exact h.wake j
    · rw [Record.wakeAt_wake, Record.wakeAt_wake, h.wake]

theorem Tracks.slept (h : s.Tracks t) (n : UInt32) : (s.slept n).Tracks (t.slept n) := by
  refine ⟨h.current, h.ticks, fun j => ?_, fun j => ?_⟩
  · rw [record_slept, record_slept, h.resident]
    split
    · rfl
    · exact h.status j
  · rw [record_slept, record_slept, h.resident]
    split
    · exact congrArg (· + n.toUInt64) h.ticks
    · exact h.wake j

/-- A swap is a selection that also keeps a pointer. -/
theorem Tracks.swapped (h : s.Tracks t) (w : Word) : (s.swapped w).Tracks t.turned := by
  refine ⟨?_, h.ticks, fun j => ?_, fun j => ?_⟩
  · exact congrArg (fun i : Slot => i.val.toUInt64) (next_congr h.current h.status)
  · exact (status_swapped s w j).trans (h.status j)
  · rw [record_swapped]
    split <;> exact h.wake j

end Scheduler

/-- Whoever asks a kernel for the current slot, the time or a status learns what the scheduler
holds. -/
structure Kernel.Shows {P : Type} (k : Kernel P) (s : Scheduler) : Prop where
  current : k.current = s.current
  now : k.now = s.ticks
  status : ∀ n, k.status? n = s.tasks[n]?.map Record.status

theorem Scheduler.Tracks.shows {P : Type} {k : Kernel P} {s : Scheduler}
    (h : k.scheduler.Tracks s) : k.Shows s := by
  refine ⟨h.current, h.ticks, fun n => ?_⟩
  rw [Kernel.status?]
  by_cases hn : n < 5
  · rw [Vector.getElem?_eq_getElem hn, Vector.getElem?_eq_getElem hn]
    exact congrArg some (h.status ⟨n, hn⟩)
  · rw [Vector.getElem?_eq_none (Nat.not_lt.mp hn), Vector.getElem?_eq_none (Nat.not_lt.mp hn)]

/-- The command that an operation has for the scheduler. -/
def Operation.command? : Operation → Option Scheduler.Command
  | .tick => some .tick
  | .delay n => some (.sleep n)
  | .swap _ => some .select
  | .populate _ | .request | .take => none

namespace Kernel

open Scheduler (usual)

variable {k l : Kernel Latch} {s : Scheduler}

theorem tracks_after (hc : k.current.toNat < 5) (hp : k.populated = true)
    (h : k.scheduler.Tracks s) (o : Operation) :
    (k.after o).scheduler.Tracks (usual.run s o.command?.toList) := by
  have hs : s.current.toNat < 5 := h.current ▸ hc
  cases o with
  | populate app =>
    rw [after_populate, if_pos hp]
    exact h
  | tick =>
    have hrun : usual.run s [.tick] = _ := Scheduler.after_tick s
    rw [after_tick, Operation.command?, Option.toList_some, hrun, now, h.ticks]
    split
    · exact h.ticked
    · exact h
  | delay n =>
    have hrun : usual.run s [.sleep n] = _ := Scheduler.after_sleep hs n
    rw [after_delay hc, Operation.command?, Option.toList_some, hrun, now, h.ticks, resident,
      h.resident]
    split
    · exact h.slept n
    · exact h
  | request => exact h
  | take => exact h
  | swap w =>
    have hrun : usual.run s [.select] = _ := Scheduler.after_select hs
    rw [after_swap hc, Operation.command?, Option.toList_some, hrun]
    exact h.swapped w

/-- A kernel with a filled table follows a bare scheduler. -/
theorem tracks_run (hc : k.current.toNat < 5) (hp : k.populated = true)
    (h : k.scheduler.Tracks s) (os : List Operation) :
    (k.run os).scheduler.Tracks (usual.run s (os.filterMap Operation.command?)) := by
  induction os generalizing k s with
  | nil => exact h
  | cons o os ih =>
    have hn := ih (current_after hc o) (populated_after hc hp o) (tracks_after hc hp h o)
    cases ho : o.command? with
    | none =>
      rw [ho] at hn
      rw [List.filterMap_cons_none ho]
      exact hn
    | some c =>
      rw [ho] at hn
      rw [List.filterMap_cons_some ho]
      exact hn

/-- Two kernels with filled tables that differ in stack pointers, entry points and stacks at
most. -/
structure Alike (k l : Kernel Latch) : Prop where
  current : k.current.toNat < 5
  filled : k.populated = true ∧ l.populated = true
  scheduler : k.scheduler.Tracks l.scheduler
  pending : k.signal.pending = l.signal.pending

theorem Alike.symm (h : k.Alike l) : l.Alike k := by
  have hc : l.current = k.current := h.scheduler.current.symm
  exact ⟨hc ▸ h.current, h.filled.symm, h.scheduler.symm, h.pending.symm⟩

/-- Operations with the same command, if any, that treat the latch alike. -/
theorem Alike.step (h : k.Alike l) {o p : Operation} (ho : o.command? = p.command?)
    (hp : (k.after o).signal.pending = (l.after p).signal.pending) :
    (k.after o).Alike (l.after p) := by
  refine ⟨current_after h.current o, ⟨populated_after h.current h.filled.1 o,
    populated_after h.symm.current h.filled.2 p⟩, ?_, hp⟩
  have hk := tracks_after h.current h.filled.1 h.scheduler o
  have hl := tracks_after h.symm.current h.filled.2 (.refl _) p
  exact hk.trans (ho ▸ hl.symm)

theorem Alike.swap (h : k.Alike l) (v w : Word) :
    (k.after (.swap v)).Alike (l.after (.swap w)) := by
  refine h.step rfl ?_
  rw [after_swap h.current, after_swap h.symm.current]
  exact h.pending

theorem Alike.after (h : k.Alike l) (o : Operation) : (k.after o).Alike (l.after o) := by
  refine h.step rfl ?_
  cases o with
  | populate app =>
    rw [after_populate, after_populate, if_pos h.filled.1, if_pos h.filled.2]
    exact h.pending
  | tick =>
    rw [after_tick, after_tick, now, now, h.scheduler.ticks]
    split
    · rfl
    · exact h.pending
  | delay n =>
    rw [after_delay h.current, after_delay h.symm.current, now, now, h.scheduler.ticks, resident,
      resident, h.scheduler.resident]
    split
    · rfl
    · exact h.pending
  | request => rfl
  | take => rfl
  | swap w => exact (h.swap w w).pending

end Kernel
end RoundRobin

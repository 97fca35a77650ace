import RoundRobin.Proofs.Kernel.Effect

/-!
When a delayed task wakes. A record of the task table is compared with the history of the run: with
the number of ticks since the table was filled, and with the last delay that the slot's own task
has made. Main statement: `record_follows_history`, for every run in which nothing overflows.
-/

namespace RoundRobin

/-- Tick and length of a delay. -/
abbrev Delay := UInt64 × UInt32

namespace Record

/-- What an application's record holds at tick `now` if `last` was the last delay of its task. A
delay of no ticks lasts until the next one. -/
def Follows (r : Record) (now : UInt64) : Option Delay → Prop
  | none => r.status = .ready ∧ r.wake = 0
  | some (t, n) => t ≤ now ∧ r.wake.toNat = t.toNat + n.toNat ∧
      (r.status = .blocked ↔ now.toNat < t.toNat + max n.toNat 1)

theorem Follows.wakeAt {r : Record} {now : UInt64} {last : Option Delay}
    (h : r.Follows now last) (hn : now.toNat + 1 < UInt64.size) :
    (r.wakeAt (now + 1)).Follows (now + 1) last := by
  have hs := toNat_add_one hn
  cases last with
  | none =>
    exact ⟨(wakeAt_status_eq_ready_iff r _).mpr (.inl h.1), (wakeAt_wake r _).trans h.2⟩
  | some d =>
    obtain ⟨t, n⟩ := d
    obtain ⟨ht, hk, hb⟩ := h
    rw [UInt64.le_iff_toNat_le] at ht
    refine ⟨UInt64.le_iff_toNat_le.mpr (by omega), by rw [wakeAt_wake, hk], ?_⟩
    rw [wakeAt_status_eq_blocked_iff, hb, UInt64.lt_iff_toNat_lt, hk, hs]
    omega

theorem follows_blockedUntil (r : Record) {now : UInt64} {n : UInt32}
    (h : now.toNat + n.toNat < UInt64.size) :
    (r.blockedUntil (now + n.toUInt64)).Follows now (some (now, n)) := by
  refine ⟨UInt64.le_refl _, ?_, ?_⟩
  · exact toNat_add_ticks h
  · have : 1 ≤ max n.toNat 1 := Nat.le_max_right _ _
    simp only [blockedUntil, true_iff]
    omega

/-- The clock and the last delay determine a record's wake tick and its status. -/
theorem Follows.unique {r s : Record} {now : UInt64} {last : Option Delay}
    (hr : r.Follows now last) (hs : s.Follows now last) :
    r.status = s.status ∧ r.wake = s.wake := by
  cases last with
  | none => exact ⟨hr.1.trans hs.1.symm, hr.2.trans hs.2.symm⟩
  | some d =>
    obtain ⟨t, n⟩ := d
    obtain ⟨-, hw, hb⟩ := hr
    obtain ⟨-, hw', hb'⟩ := hs
    refine ⟨Status.eq_of_ready_iff ?_, UInt64.toNat_inj.mp (hw.trans hw'.symm)⟩
    rw [← Decidable.not_iff_not, ← Ne, ← Ne, ← Status.eq_blocked_iff, ← Status.eq_blocked_iff]
    exact hb.trans hb'.symm

end Record

namespace Kernel

variable {k : Kernel Latch}

/-- Whether no operation of a series faults. -/
def completes (k : Kernel Latch) : List Operation → Bool
  | [] => true
  | o :: os => ((perform o).outcome k).1.isOk && (k.after o).completes os

/-- The delay that the task of slot `j` makes by an operation. -/
def delayBy (k : Kernel Latch) (j : Slot) : Operation → Option Delay
  | .delay n => if k.current.toNat = j.val then some (k.now, n) else none
  | _ => none

/-- The last delay that the task of slot `j` makes in a series of operations. -/
def lastDelay (k : Kernel Latch) (j : Slot) : List Operation → Option Delay
  | [] => none
  | o :: os => ((k.after o).lastDelay j os).or (k.delayBy j o)

/-- A kernel `n` ticks after its table was filled, when the tasks' last delays were `last`. -/
structure Timed (k : Kernel Latch) (n : Nat) (last : Slot → Option Delay) : Prop where
  current : k.current.toNat < 5
  populated : k.populated = true
  now : k.now.toNat = n
  idle : (k.record idleSlot).status = .ready ∧ (k.record idleSlot).wake = 0
  tasks : ∀ j, j ≠ idleSlot → (k.record j).Follows k.now (last j)

theorem timed_filled (k : Kernel Latch) (app : Application) :
    (k.filled app).Timed 0 fun _ => none := by
  refine ⟨Scheduler.current_fresh app, rfl, rfl, ?_, ?_⟩
  · rw [record_filled]
    exact ⟨rfl, rfl⟩
  · intro j _
    rw [record_filled]
    exact ⟨rfl, rfl⟩

/-- The step of the induction over a run. -/
theorem Timed.after {n : Nat} {last : Slot → Option Delay} (h : k.Timed n last) {o : Operation}
    (ho : ((perform o).outcome k).1.isOk = true) :
    (k.after o).Timed (n + if o = .tick then 1 else 0)
      fun j => (k.delayBy j o).or (last j) := by
  cases o with
  | populate app =>
    rw [after_populate, if_pos h.populated]
    exact h
  | tick =>
    have hn : k.now.toNat + 1 < UInt64.size := by
      refine Nat.not_le.mp fun hn => ?_
      have he : perform .tick k = .error .overflow k := Action.bind_of_error (tick_of_le hn)
      rw [Action.outcome_of_error he] at ho
      cases ho
    rw [after_tick, if_pos hn]
    refine ⟨h.current, h.populated, ?_, ?_, ?_⟩
    · rw [if_pos rfl, ← h.now]
      exact Scheduler.toNat_ticks_ticked hn
    · rw [record_ticked, if_pos rfl]
      exact h.idle
    · intro j hj
      rw [record_ticked, if_neg hj]
      exact (h.tasks j hj).wakeAt hn
  | delay d =>
    by_cases hi : k.resident = idleSlot
    · rw [after_delay h.current, if_neg fun hd => hd.1 hi]
      refine ⟨h.current, h.populated, h.now, h.idle, ?_⟩
      intro j hj
      have hv : ¬ k.current.toNat = j.val := fun he =>
        hj (Fin.ext (he.symm.trans ((val_resident h.current).symm.trans (congrArg Fin.val hi))))
      rw [delayBy, if_neg hv]
      exact h.tasks j hj
    · have hn : k.now.toNat + d.toNat < UInt64.size := by
        refine Nat.not_le.mp fun hn => ?_
        have he : perform (.delay d) k = .error .overflow k :=
          Action.bind_of_error (delay_of_le h.current hi hn)
        rw [Action.outcome_of_error he] at ho
        cases ho
      rw [after_delay h.current, if_pos ⟨hi, hn⟩]
      refine ⟨h.current, h.populated, h.now, ?_, ?_⟩
      · rw [record_slept, if_neg hi]
        exact h.idle
      · intro j hj
        rw [record_slept, delayBy, ← val_resident h.current]
        by_cases hj' : k.resident = j
        · rw [if_pos hj', if_pos (congrArg Fin.val hj')]
          exact Record.follows_blockedUntil _ hn
        · rw [if_neg hj', if_neg fun he => hj' (Fin.ext he)]
          exact h.tasks j hj
  | request => exact ⟨h.current, h.populated, h.now, h.idle, h.tasks⟩
  | take => exact ⟨h.current, h.populated, h.now, h.idle, h.tasks⟩
  | swap w =>
    have hc := current_after h.current (.swap w)
    rw [after_swap h.current] at hc ⊢
    refine ⟨hc, h.populated, h.now, ?_, ?_⟩
    · rw [record_swapped]
      split <;> exact h.idle
    · intro j hj
      rw [record_swapped]
      split <;> exact h.tasks j hj

theorem Timed.run {n : Nat} {last : Slot → Option Delay} (h : k.Timed n last)
    {os : List Operation} (hos : k.completes os = true) :
    (k.run os).Timed (n + os.count .tick) fun j => (k.lastDelay j os).or (last j) := by
  induction os generalizing k n last with
  | nil => exact h
  | cons o os ih =>
    obtain ⟨ho, hos⟩ := Bool.and_eq_true_iff.mp hos
    have hr := ih (h.after ho) hos
    simp only [run_cons, lastDelay, add_count_tick_cons, Option.or_assoc]
    exact hr

/-- **Wake law.** From the moment when the table is filled, the clock counts the ticks, the idle
slot stays ready, and every other record is a function of the clock and of the last delay of its
own task. -/
theorem record_follows_history (before os : List Operation) (app : Application)
    (hb : ((blank Latch.clear).run before).populated = false)
    (hos : (primed before app).completes os = true) :
    let k := (primed before app).run os
    k.now.toNat = os.count .tick ∧
    (k.record idleSlot).status = .ready ∧ (k.record idleSlot).wake = 0 ∧
    (∀ j, j ≠ idleSlot → (k.record j).Follows k.now ((primed before app).lastDelay j os)) ∧
    ∀ j, j ≠ idleSlot → ∀ os', (primed before app).completes os' = true →
      os'.count .tick = os.count .tick →
      (primed before app).lastDelay j os' = (primed before app).lastDelay j os →
      (((primed before app).run os').record j).status = (k.record j).status ∧
      (((primed before app).run os').record j).wake = (k.record j).wake := by
  intro k
  have hk₀ : (primed before app).Timed 0 fun _ => none := by
    rw [primed_eq hb]
    exact timed_filled _ app
  have law {ps : List Operation} (hps : (primed before app).completes ps = true) :
      ((primed before app).run ps).Timed (ps.count .tick)
        fun j => (primed before app).lastDelay j ps := by
    have h := hk₀.run hps
    simp only [Nat.zero_add, Option.or_none] at h
    exact h
  have h := law hos
  refine ⟨h.now, h.idle.1, h.idle.2, h.tasks, ?_⟩
  intro j hj os' hos' hn hd
  have h' := law hos'
  have hnow : ((primed before app).run os').now = k.now :=
    UInt64.toNat_inj.mp (by rw [h'.now, hn, h.now])
  have hf := h'.tasks j hj
  rw [hnow, hd] at hf
  exact hf.unique (h.tasks j hj)

/-- The first task delays before the table is filled, and afterwards twice before it is switched
away from, the second time a tick later; the second task delays for no ticks. -/
def sleepers : List Operation :=
  [.delay 5, .tick, .delay 1, .swap .null, .delay 0, .tick, .swap .null]

theorem record_follows_history_sleepers :
    ((blank Latch.clear).run [.delay 9]).populated = false ∧
    (primed [.delay 9] .numbered).completes sleepers = true ∧
    let k := (primed [.delay 9] .numbered).run sleepers
    (k.record 1).Follows 2 (some (1, 1)) ∧ (k.record 2).Follows 2 (some (1, 0)) ∧
    (k.record 3).Follows 2 none := by
  have hb : ((blank Latch.clear).run [.delay 9]).populated = false := rfl
  have hos : (primed [.delay 9] .numbered).completes sleepers = true := by decide +kernel
  obtain ⟨-, -, -, h, -⟩ := record_follows_history [.delay 9] sleepers .numbered hb hos
  have hn : ((primed [.delay 9] .numbered).run sleepers).now = 2 := by decide +kernel
  have hd : (primed [.delay 9] .numbered).lastDelay 1 sleepers = some (1, 1) ∧
      (primed [.delay 9] .numbered).lastDelay 2 sleepers = some (1, 0) ∧
      (primed [.delay 9] .numbered).lastDelay 3 sleepers = none := by decide +kernel
  have h₁ := h 1 (by decide)
  have h₂ := h 2 (by decide)
  have h₃ := h 3 (by decide)
  rw [hn, hd.1] at h₁
  rw [hn, hd.2.1] at h₂
  rw [hn, hd.2.2] at h₃
  exact ⟨hb, hos, h₁, h₂, h₃⟩

end Kernel
end RoundRobin

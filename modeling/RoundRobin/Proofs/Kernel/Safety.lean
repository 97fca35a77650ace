import RoundRobin.Proofs.Kernel.Effect

/-!
Nothing faults. A sleep is shorter than `UInt32.size` ticks, so as long as the clock keeps that far
from its end, no sum overflows; and the number of the current slot always names a slot. Main
statement: `never_faults`, for every run from the blank kernel; `delay_faults_of_late` shows that the
bound on the number of ticks cannot be raised.
-/

namespace RoundRobin

namespace Record

variable {r : Record} {now : UInt64}

/-- If the task sleeps, its wake tick is not past, and no further ahead than a sleep is long. -/
def InReach (r : Record) (now : UInt64) : Prop :=
  r.status = .blocked → now ≤ r.wake ∧ r.wake.toNat ≤ now.toNat + (UInt32.size - 1)

theorem inReach_of_ready (h : r.status = .ready) : r.InReach now := by
  intro hb
  rw [h] at hb
  cases hb

theorem InReach.wakeAt (h : r.InReach now) (hn : now.toNat + 1 < UInt64.size) :
    (r.wakeAt (now + 1)).InReach (now + 1) := by
  intro hb
  rw [wakeAt_status_eq_blocked_iff] at hb
  obtain ⟨hb, hlt⟩ := hb
  obtain ⟨-, hle⟩ := h hb
  rw [wakeAt_wake, toNat_add_one hn]
  exact ⟨UInt64.le_of_lt hlt, by omega⟩

theorem inReach_blockedUntil {n : UInt32} (hn : now.toNat + n.toNat < UInt64.size) :
    (r.blockedUntil (now + n.toUInt64)).InReach now := by
  intro _
  have hlt : n.toNat < UInt32.size := n.toNat_lt
  rw [blockedUntil, UInt64.le_iff_toNat_le, toNat_add_ticks hn]
  constructor <;> omega

end Record

namespace Kernel

variable {k : Kernel Latch} {n : Nat}

/-- A kernel after at most `n` ticks in which every wake tick is in reach. -/
structure Within (k : Kernel Latch) (n : Nat) : Prop where
  current : k.current.toNat < 5
  now : k.now.toNat ≤ n
  idle : (k.record idleSlot).status = .ready
  wake : ∀ j, (k.record j).InReach k.now

theorem within_blank : (blank Latch.clear).Within 0 := by
  have hr (j : Slot) : ((blank Latch.clear).record j).status = .ready := by
    revert j
    decide
  exact ⟨current_blank _, Nat.le_refl 0, hr _, fun j => Record.inReach_of_ready (hr j)⟩

/-- Far enough from the end of the clock there is room for a sleep of any length. -/
theorem Within.room (h : k.Within n) (hn : n + UInt32.size ≤ UInt64.size) (d : UInt32) :
    k.now.toNat + d.toNat < UInt64.size := by
  have hd : d.toNat < UInt32.size := d.toNat_lt
  have hnow := h.now
  omega

theorem Within.tick_room (h : k.Within n) (hn : n + UInt32.size ≤ UInt64.size) :
    k.now.toNat + 1 < UInt64.size := h.room hn 1

theorem Within.perform (h : k.Within n) (hn : n + UInt32.size ≤ UInt64.size) (o : Operation) :
    ∃ r, perform o k = .ok r (k.after o) := by
  have hok : ∃ r k', Kernel.perform o k = .ok r k' := by
    cases o with
    | populate app =>
      cases hp : k.populated with
      | false => exact ⟨_, _, Action.bind_of_ok (populate_of_false hp app)⟩
      | true => exact ⟨_, _, Action.bind_of_ok (populate_of_true hp app)⟩
    | tick => exact ⟨_, _, Action.bind_of_ok (tick_eq (h.tick_room hn))⟩
    | delay d =>
      by_cases hi : k.resident = idleSlot
      · exact ⟨_, _, Action.bind_of_ok (delay_of_idle h.current hi d)⟩
      · exact ⟨_, _, Action.bind_of_ok (delay_eq h.current hi (h.room hn d))⟩
    | request => exact ⟨_, _, rfl⟩
    | take => exact ⟨_, _, rfl⟩
    | swap w => exact ⟨_, _, perform_swap h.current w⟩
  obtain ⟨r, k', hr⟩ := hok
  rw [after_of_ok hr]
  exact ⟨r, hr⟩

theorem Within.after (h : k.Within n) (hn : n + UInt32.size ≤ UInt64.size) (o : Operation) :
    (k.after o).Within (n + if o = .tick then 1 else 0) := by
  have hc := current_after h.current o
  cases o with
  | populate app =>
    rw [after_populate] at hc ⊢
    split
    · exact h
    · have hr (j : Slot) : ((k.filled app).record j).status = .ready := by
        rw [record_filled]
        rfl
      exact ⟨Scheduler.current_fresh app, Nat.zero_le _, hr _,
        fun j => Record.inReach_of_ready (hr j)⟩
  | tick =>
    have hroom := h.tick_room hn
    rw [after_tick, if_pos hroom] at hc ⊢
    have hs : (k.withScheduler k.scheduler.ticked).pended.now.toNat = k.now.toNat + 1 :=
      Scheduler.toNat_ticks_ticked hroom
    refine ⟨hc, ?_, ?_, fun j => ?_⟩
    · rw [hs, if_pos rfl]
      exact Nat.succ_le_succ h.now
    · rw [record_ticked, if_pos rfl]
      exact h.idle
    · rw [record_ticked]
      split
      · next hj => exact Record.inReach_of_ready (hj ▸ h.idle)
      · exact (h.wake j).wakeAt hroom
  | delay d =>
    rw [after_delay h.current] at hc ⊢
    split
    · next hd =>
      refine ⟨h.current, h.now, ?_, fun j => ?_⟩
      · rw [record_slept, if_neg hd.1]
        exact h.idle
      · rw [record_slept]
        split
        · exact Record.inReach_blockedUntil hd.2
        · exact h.wake j
    · exact h
  | request => exact ⟨hc, h.now, h.idle, h.wake⟩
  | take => exact ⟨hc, h.now, h.idle, h.wake⟩
  | swap w =>
    rw [after_swap h.current] at hc ⊢
    refine ⟨hc, h.now, ?_, fun j => ?_⟩
    · rw [record_swapped]
      split <;> exact h.idle
    · rw [record_swapped]
      split <;> exact h.wake j

theorem Within.run (h : k.Within n) {os : List Operation}
    (hn : n + os.count .tick + UInt32.size ≤ UInt64.size) :
    (k.run os).Within (n + os.count .tick) := by
  induction os generalizing k n with
  | nil => exact h
  | cons o os ih =>
    rw [add_count_tick_cons] at hn ⊢
    exact ih (h.after (by omega) o) hn

/-- **Nothing faults.** In every run from the blank kernel with at most `2^64 - 2^32` ticks, whatever
its operations and their arguments, before and after the table is filled, every operation goes
through. In every state on the way, the number of the current slot names a slot, and the search for
the next one can start after it; there is room on the clock for a sleep of any length, hence also for
a tick; a status is found for every slot and for no other number; and the wake tick of every sleeping
task is not past, and at most a sleep's length ahead. -/
theorem never_faults (os : List Operation) (hos : os.count .tick ≤ UInt64.size - UInt32.size) :
    (∀ us o vs, os = us ++ o :: vs →
      let k := (blank Latch.clear).run us
      ∃ r, perform o k = .ok r (k.after o)) ∧
    ∀ us vs, os = us ++ vs →
      let k := (blank Latch.clear).run us
      k.current.toNat < 5 ∧ k.current.toNat + 1 < UInt64.size ∧
      k.now.toNat ≤ us.count .tick ∧ (∀ d : UInt32, k.now.toNat + d.toNat < UInt64.size) ∧
      (∀ i, (k.status? i).isSome = true ↔ i < 5) ∧
      ∀ j, (k.record j).status = .blocked →
        k.now ≤ (k.record j).wake ∧ (k.record j).wake.toNat ≤ k.now.toNat + (UInt32.size - 1) := by
  have hroom {us vs : List Operation} (he : os = us ++ vs) :
      us.count .tick + UInt32.size ≤ UInt64.size := by
    have hle : us.count .tick ≤ os.count .tick := by
      rw [he, List.count_append]
      exact Nat.le_add_right _ _
    have hsize : UInt32.size ≤ UInt64.size := by decide
    omega
  have hwithin {us vs : List Operation} (he : os = us ++ vs) :
      ((blank Latch.clear).run us).Within (us.count .tick) := by
    have hn : 0 + us.count .tick + UInt32.size ≤ UInt64.size := by
      rw [Nat.zero_add]
      exact hroom he
    have h := within_blank.run hn
    rwa [Nat.zero_add] at h
  constructor
  · intro us o vs he k
    exact (hwithin he).perform (hroom he) o
  · intro us vs he k
    have h := hwithin he
    have hc : k.current.toNat < 5 := h.current
    have hsucc : k.current.toNat + 1 < UInt64.size :=
      Nat.lt_of_le_of_lt (Nat.succ_le_of_lt hc) (by decide)
    refine ⟨hc, hsucc, h.now, h.room (hroom he), fun i => ?_, h.wake⟩
    simp [status?]

/-- The second task sleeps for as long as it can, the first one for no ticks, before the table is
filled and again afterwards. -/
def longSleeps : List Operation :=
  [.delay 0, .swap .null, .delay 4294967295, .tick, .swap (.number 8), .delay 7,
    .populate .numbered, .tick, .delay 0, .swap .null, .delay 4294967295, .swap .null, .delay 1]

theorem never_faults_longSleeps :
    longSleeps.count .tick ≤ UInt64.size - UInt32.size ∧
    let k := (blank Latch.clear).run longSleeps
    (k.record 1).status = .blocked ∧ (k.record 1).wake = 1 ∧
    (k.record 2).status = .blocked ∧ (k.record 2).wake = 4294967296 ∧
    (k.record 3).status = .blocked ∧ (k.record 3).wake = 2 ∧
    k.now = 1 ∧ k.now ≤ (k.record 1).wake ∧
    (k.record 2).wake.toNat ≤ k.now.toNat + (UInt32.size - 1) := by
  have hos : longSleeps.count .tick ≤ UInt64.size - UInt32.size := by decide
  have h := (never_faults longSleeps hos).2 longSleeps [] (List.append_nil _).symm
  refine ⟨hos, ?_⟩
  intro k
  have hs : (k.record 1).status = .blocked ∧ (k.record 1).wake = 1 ∧
      (k.record 2).status = .blocked ∧ (k.record 2).wake = 4294967296 ∧
      (k.record 3).status = .blocked ∧ (k.record 3).wake = 2 ∧ k.now = 1 := by
    decide +kernel +zetaReduce
  obtain ⟨h₁, hw₁, h₂, hw₂, h₃, hw₃, hn⟩ := hs
  obtain ⟨-, -, -, -, -, hwake⟩ := h
  exact ⟨h₁, hw₁, h₂, hw₂, h₃, hw₃, hn, (hwake 1 h₁).1, (hwake 2 h₂).2⟩

/-! ## Nearer to the end of the clock -/

theorem run_ticks (n : Nat) (hn : k.now.toNat + n < UInt64.size) :
    (k.run (.replicate n .tick)).now.toNat = k.now.toNat + n ∧
      (k.run (.replicate n .tick)).current = k.current := by
  induction n generalizing k with
  | zero => exact ⟨rfl, rfl⟩
  | succ n ih =>
    have hroom : k.now.toNat + 1 < UInt64.size := by omega
    have hs : (k.after .tick).now.toNat = k.now.toNat + 1 := by
      rw [after_tick, if_pos hroom]
      exact Scheduler.toNat_ticks_ticked hroom
    obtain ⟨hnow, hc⟩ := ih (k := k.after .tick) (by omega)
    rw [List.replicate_succ, run_cons]
    exact ⟨by omega, hc.trans (current_after_tick k)⟩

/-- A single tick more, and a task can ask for a sleep that overflows. -/
theorem delay_faults_of_late (n : Nat) (h : UInt64.size < n + UInt32.size)
    (hn : n < UInt64.size) :
    let k := (blank Latch.clear).run (.replicate n .tick)
    ∃ d, perform (.delay d) k = .error .overflow k := by
  intro k
  have hzero : (blank Latch.clear).now.toNat = 0 := rfl
  obtain ⟨hnow, hc⟩ := run_ticks (k := blank Latch.clear) n (by omega)
  have hcur : k.current.toNat < 5 := hc ▸ current_blank _
  have hidle : k.resident ≠ idleSlot := by
    rw [resident, Scheduler.resident_congr hc]
    decide
  refine ⟨UInt32.ofNat (UInt64.size - n), Action.bind_of_error (delay_of_le hcur hidle ?_)⟩
  have hlt : UInt64.size - n < UInt32.size := by omega
  have hd : (UInt32.ofNat (UInt64.size - n)).toNat = UInt64.size - n :=
    UInt32.toNat_ofNat_of_lt hlt
  rw [hd, hnow]
  omega

end Kernel
end RoundRobin

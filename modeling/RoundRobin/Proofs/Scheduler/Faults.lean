import RoundRobin.Proofs.Scheduler.Effect

/-!
When the scheduler's operations fault. Nothing is assumed of the scheduler: the number of its current
slot need not name a slot, and the clock may stand anywhere. Main statements: `tick_eq_error_iff` to
`swap_eq_error_iff`, which give the condition, the fault, and the state that it leaves.
-/

namespace RoundRobin

namespace Action

/-- What follows without a fault does not change when a series of two actions faults. -/
theorem bind_eq_error_iff {σ α β : Type} {a : Action σ α} {f : α → Action σ β}
    (hf : ∀ r s e t, f r s ≠ .error e t) (s t : σ) (e : Fault) :
    (a >>= f) s = .error e t ↔ a s = .error e t := by
  cases ha : a s with
  | ok r u => simp [bind_of_ok ha, hf]
  | error e' u => simp [bind_of_error ha]

end Action

namespace Scheduler

variable {s t : Scheduler} {e : Fault}

/-- The clock faults at the last tick that it can count to. -/
theorem tick_eq_error_iff :
    tick s = .error e t ↔ s.ticks.toNat = UInt64.size - 1 ∧ e = .overflow ∧ t = s := by
  have hlast : s.ticks.toNat < UInt64.size := s.ticks.toNat_lt
  by_cases h : s.ticks.toNat + 1 < UInt64.size
  · rw [tick_of_lt h]
    constructor
    · intro hf
      cases hf
    · rintro ⟨he, -, -⟩
      omega
  · have he : s.ticks.toNat = UInt64.size - 1 := by omega
    simp [tick_of_le (Nat.not_lt.mp h), he, eq_comm]

/-- An idle task's sleep never faults. Any other faults if its wake tick cannot be formed, and only
otherwise if there is no slot to put to sleep. -/
theorem sleep_eq_error_iff {n : UInt32} :
    sleep n s = .error e t ↔ s.current.toNat ≠ idleSlot.val ∧ t = s ∧
      (UInt64.size ≤ s.ticks.toNat + n.toNat ∧ e = .overflow ∨
        s.ticks.toNat + n.toNat < UInt64.size ∧ 5 ≤ s.current.toNat ∧
          e = .outOfBounds 5 s.current.toNat) := by
  by_cases hi : s.current.toNat = idleSlot.val
  · have hidle : s.isIdle = true := decide_eq_true hi
    simp [sleep_of_isIdle hidle, hi]
  have hidle : s.isIdle = false := decide_eq_false hi
  by_cases hn : s.ticks.toNat + n.toNat < UInt64.size
  · by_cases hc : s.current.toNat < 5
    · simp [sleep_of_lt hidle hn hc, Nat.not_le.mpr hn, Nat.not_le.mpr hc]
    · have hc' : 5 ≤ s.current.toNat := Nat.not_lt.mp hc
      simp [sleep_of_outOfBounds hidle hn hc', hi, hn, hc', Nat.not_le.mpr hn, eq_comm, and_comm]
  · have hn' : UInt64.size ≤ s.ticks.toNat + n.toNat := Nat.not_lt.mp hn
    simp [sleep_of_overflow hidle hn', hi, hn, hn', eq_comm, and_comm]

/-- The search for the next task wraps round from every number but the last. -/
theorem select_eq_error_iff :
    select s = .error e t ↔ s.current.toNat = UInt64.size - 1 ∧ e = .overflow ∧ t = s := by
  have hlast : s.current.toNat < UInt64.size := s.current.toNat_lt
  by_cases h : s.current.toNat + 1 < UInt64.size
  · rw [select_of_lt h]
    constructor
    · intro hf
      cases hf
    · rintro ⟨he, -, -⟩
      omega
  · have he : s.current.toNat = UInt64.size - 1 := by omega
    simp [select_of_le (Nat.not_lt.mp h), he, eq_comm]

/-- A swap looks its slot up before it does anything else, so the search that follows never
faults. -/
theorem swap_eq_error_iff {w : Word} :
    swap w s = .error e t ↔
      5 ≤ s.current.toNat ∧ e = .outOfBounds 5 s.current.toNat ∧ t = s := by
  by_cases h : s.current.toNat < 5
  · simp [swap_of_lt h rfl, Nat.not_le.mpr h]
  · simp [swap_of_le (Nat.not_lt.mp h), Nat.not_lt.mp h, eq_comm]

end Scheduler
end RoundRobin

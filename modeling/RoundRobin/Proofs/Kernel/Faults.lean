import RoundRobin.Proofs.Kernel.Effect
import RoundRobin.Proofs.Scheduler.Faults

/-!
When the kernel's operations fault, and that a fault leaves no trace: neither the scheduler nor the
signal changes. Main statement: `faults_exactly_and_without_trace`, for every scheduler and every
kernel, reachable or not.
-/

namespace RoundRobin
namespace Kernel

variable {P : Type} {k k' : Kernel P} {e : Fault}

theorem onScheduler_eq_error_iff {α : Type} {a : Action Scheduler α}
    (ha : ∀ t, a k.scheduler = .error e t → t = k.scheduler) :
    onScheduler a k = .error e k' ↔ a k.scheduler = .error e k.scheduler ∧ k' = k := by
  cases h : a k.scheduler with
  | ok r s => simp [onScheduler_of_ok h]
  | error f s =>
    have hs : onScheduler a k = .error f (k.withScheduler s) := by
      simp only [onScheduler, Action.on, h]
      rfl
    rw [hs]
    constructor
    · intro he
      cases he
      obtain rfl := ha s h
      exact ⟨rfl, rfl⟩
    · rintro ⟨he, rfl⟩
      cases he
      rfl

variable [SwitchSignal P]

theorem tick_eq_error_iff :
    tick k = .error e k' ↔ Scheduler.tick k.scheduler = .error e k.scheduler ∧ k' = k := by
  have hpend (r : Unit) (k₁ : Kernel P) (f : Fault) (k₂ : Kernel P) :
      (pendSwitch : Action (Kernel P) Unit) k₁ ≠ .error f k₂ := nofun
  rw [tick, Action.bind_eq_error_iff hpend]
  apply onScheduler_eq_error_iff
  intro t ht
  exact (Scheduler.tick_eq_error_iff.mp ht).2.2

theorem delay_eq_error_iff {n : UInt32} :
    delay n k = .error e k' ↔ Scheduler.sleep n k.scheduler = .error e k.scheduler ∧ k' = k := by
  have hpend (r : Bool) (k₁ : Kernel P) (f : Fault) (k₂ : Kernel P) :
      (if r then pendSwitch else pure () : Action (Kernel P) Unit) k₁ ≠ .error f k₂ := by
    cases r <;> exact nofun
  rw [delay, Action.bind_eq_error_iff hpend]
  apply onScheduler_eq_error_iff
  intro t ht
  exact (Scheduler.sleep_eq_error_iff.mp ht).2.1

/-- **Faults come exactly where they must and leave no trace.** This is so for every scheduler, also
for one that no run leads to: a tick faults on the last tick only; a sleep, unless the idle task is
the current one, if its wake tick overflows, and otherwise if there is no current slot; a selection
on the last number only; a swap if there is no current slot, and never by overflow. What has faulted
has changed nothing, and in a kernel it has asked for no switch either. -/
theorem faults_exactly_and_without_trace (s t : Scheduler) (k k' : Kernel P) (e : Fault) :
    (Scheduler.tick s = .error e t ↔
      s.ticks.toNat = UInt64.size - 1 ∧ e = .overflow ∧ t = s) ∧
    (∀ n, Scheduler.sleep n s = .error e t ↔ s.current.toNat ≠ idleSlot.val ∧ t = s ∧
      (UInt64.size ≤ s.ticks.toNat + n.toNat ∧ e = .overflow ∨
        s.ticks.toNat + n.toNat < UInt64.size ∧ 5 ≤ s.current.toNat ∧
          e = .outOfBounds 5 s.current.toNat)) ∧
    (Scheduler.select s = .error e t ↔
      s.current.toNat = UInt64.size - 1 ∧ e = .overflow ∧ t = s) ∧
    (∀ w, Scheduler.swap w s = .error e t ↔
      5 ≤ s.current.toNat ∧ e = .outOfBounds 5 s.current.toNat ∧ t = s) ∧
    (tick k = .error e k' ↔ Scheduler.tick k.scheduler = .error e k.scheduler ∧ k' = k) ∧
    ∀ n, delay n k = .error e k' ↔
      Scheduler.sleep n k.scheduler = .error e k.scheduler ∧ k' = k := by
  refine ⟨Scheduler.tick_eq_error_iff, fun n => Scheduler.sleep_eq_error_iff,
    Scheduler.select_eq_error_iff, fun w => Scheduler.swap_eq_error_iff, tick_eq_error_iff, ?_⟩
  intro n
  exact delay_eq_error_iff

end Kernel
end RoundRobin

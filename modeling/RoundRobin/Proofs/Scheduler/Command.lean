import RoundRobin.Proofs.Scheduler.Effect

/-!
Runs of a scheduler by itself, without a kernel around it. A regime says how commands are obeyed, so
that schedulers with different rules can be put side by side. Main statements: the equations
`usual_tick` to `usual_swap` and `after_tick` to `after_select` of the usual regime.
-/

namespace RoundRobin
namespace Scheduler

inductive Command where
  | tick
  | sleep (ticks : UInt32)
  | select
  | swap (outgoing : Word)
  deriving DecidableEq, Repr

/-- What a command answers. -/
inductive Response where
  | done
  | slept (blocked : Bool)
  | selected (slot : Slot)
  | incoming (stackPointer : Word)
  deriving DecidableEq, Repr

/-- A way of obeying commands. -/
abbrev Regime := Command → Action Scheduler Response

def usual : Regime
  | .tick => do tick; return .done
  | .sleep n => return .slept (← sleep n)
  | .select => return .selected (← select)
  | .swap w => return .incoming (← swap w)

namespace Regime

variable (p : Regime)

/-- The scheduler after a command, whether it faults or not. -/
def after (s : Scheduler) (c : Command) : Scheduler := ((p c).outcome s).2

def run (s : Scheduler) (cs : List Command) : Scheduler := cs.foldl p.after s

def responses (s : Scheduler) : List Command → List (Except Fault Response)
  | [] => []
  | c :: cs => ((p c).outcome s).1 :: responses (p.after s c) cs

end Regime

variable {s : Scheduler}

/-- The scheduler when the turn has been passed on. -/
def turned (s : Scheduler) : Scheduler := { s with current := s.next.val.toUInt64 }

theorem toNat_current_turned (s : Scheduler) : s.turned.current.toNat = s.next.val := toNat_slot _

theorem resident_turned (s : Scheduler) : s.turned.resident = s.next := by
  apply Fin.ext
  rw [val_resident (toNat_current_turned s ▸ s.next.isLt), toNat_current_turned]

theorem select_eq (hc : s.current.toNat < 5) : select s = .ok s.next s.turned :=
  select_of_lt (Nat.lt_of_le_of_lt (Nat.succ_le_of_lt hc) (by decide))

theorem usual_tick (h : s.ticks.toNat + 1 < UInt64.size) : usual .tick s = .ok .done s.ticked :=
  Action.bind_of_ok (tick_eq h)

theorem usual_sleep_of_idle (hc : s.current.toNat < 5) (hi : s.resident = idleSlot) (n : UInt32) :
    usual (.sleep n) s = .ok (.slept false) s :=
  Action.bind_of_ok (sleep_of_isIdle ((isIdle_iff hc).mpr hi) n)

theorem usual_sleep {n : UInt32} (hc : s.current.toNat < 5) (hi : s.resident ≠ idleSlot)
    (hn : s.ticks.toNat + n.toNat < UInt64.size) :
    usual (.sleep n) s = .ok (.slept true) (s.slept n) :=
  Action.bind_of_ok (sleep_eq hc hi hn)

theorem usual_select (hc : s.current.toNat < 5) :
    usual .select s = .ok (.selected s.next) s.turned :=
  Action.bind_of_ok (select_eq hc)

theorem usual_swap (hc : s.current.toNat < 5) (w : Word) :
    usual (.swap w) s =
      .ok (.incoming ((s.swapped w).record s.next).stackPointer) (s.swapped w) :=
  Action.bind_of_ok (swap_eq hc w)

theorem Regime.after_of_ok {p : Regime} {c : Command} {r : Response} {t : Scheduler}
    (h : p c s = .ok r t) : p.after s c = t := by
  rw [after, Action.outcome_of_ok h]

theorem Regime.after_of_error {p : Regime} {c : Command} {e : Fault} {t : Scheduler}
    (h : p c s = .error e t) : p.after s c = t := by
  rw [after, Action.outcome_of_error h]

theorem after_tick (s : Scheduler) :
    usual.after s .tick = if s.ticks.toNat + 1 < UInt64.size then s.ticked else s := by
  split
  · next h => exact Regime.after_of_ok (usual_tick h)
  · next h =>
    exact Regime.after_of_error (Action.bind_of_error (tick_of_le (Nat.not_lt.mp h)))

theorem after_sleep (hc : s.current.toNat < 5) (n : UInt32) :
    usual.after s (.sleep n) =
      if s.resident ≠ idleSlot ∧ s.ticks.toNat + n.toNat < UInt64.size then s.slept n else s := by
  by_cases hi : s.resident = idleSlot
  · rw [if_neg fun h => h.1 hi]
    exact Regime.after_of_ok (usual_sleep_of_idle hc hi n)
  · split
    · next h => exact Regime.after_of_ok (usual_sleep hc hi h.2)
    · next h =>
      have hf : s.isIdle = false := Bool.eq_false_iff.mpr fun h => hi ((isIdle_iff hc).mp h)
      have hn := Nat.not_lt.mp fun hn => h ⟨hi, hn⟩
      exact Regime.after_of_error (Action.bind_of_error (sleep_of_overflow hf hn))

theorem after_select (hc : s.current.toNat < 5) : usual.after s .select = s.turned :=
  Regime.after_of_ok (usual_select hc)

end Scheduler
end RoundRobin

import RoundRobin.Word

/-!
Faults and the actions that raise them. An action works on a state and may stop with a fault; the
state that it has reached by then is part of the outcome, so that what a fault leaves behind can be
stated. The checked operations below are the only places where a fault begins.
-/

namespace RoundRobin

inductive Fault where
  | overflow
  | underflow
  | outOfBounds (length index : Nat)
  | notAddress (w : Word)
  | badReturn (w : Word)
  deriving DecidableEq, Repr

def Fault.message : Fault → String
  | overflow => "attempt to add with overflow"
  | underflow => "attempt to subtract with overflow"
  | outOfBounds length index =>
    s!"index out of bounds: the len is {length} but the index is {index}"
  | notAddress _ => "the word is no address"
  | badReturn _ => "the branch target ends no exception"

/-- The sum of two 64-bit words, or a fault if it has no place in 64 bits. -/
def addExact (a b : UInt64) : Except Fault UInt64 :=
  if a.toNat + b.toNat < UInt64.size then .ok (a + b) else .error .overflow

/-- The difference of two 64-bit words, or a fault if it would be negative. -/
def subExact (a b : UInt64) : Except Fault UInt64 :=
  if b ≤ a then .ok (a - b) else .error .underflow

def fetch {α : Type} {n : Nat} (v : Vector α n) (i : Nat) : Except Fault α :=
  if h : i < n then .ok v[i] else .error (.outOfBounds n i)

/-- The index `i` as a position in a table of `n` entries. -/
def position (n : Nat) (i : UInt64) : Except Fault (Fin n) :=
  if h : i.toNat < n then .ok ⟨i.toNat, h⟩ else .error (.outOfBounds n i.toNat)

def Word.offset : Word → Except Fault Int
  | .address p => .ok p
  | w => .error (.notAddress w)

abbrev Action (σ α : Type) := EStateM Fault σ α

namespace Action

/-- Runs an action on one part of a larger state. What the part has become stays in place, also
when the action stops with a fault. -/
def on {σ τ α : Type} (part : τ → σ) (replace : σ → τ → τ) (a : Action σ α) :
    Action τ α := fun t =>
  match a (part t) with
  | .ok r s => .ok r (replace s t)
  | .error f s => .error f (replace s t)

/-- The same action `n` times over; a fault ends the series. -/
def times {σ : Type} : Nat → Action σ Unit → Action σ Unit
  | 0, _ => pure ()
  | n + 1, a => do a; times n a

/-- What an action yields, and the state that it leaves whether it faults or not. -/
def outcome {σ α : Type} (a : Action σ α) (s : σ) : Except Fault α × σ :=
  match a s with
  | .ok r s => (.ok r, s)
  | .error f s => (.error f, s)

/-! ## Running an action step by step -/

variable {σ α β : Type} {a : Action σ α}

@[simp] theorem get_bind (f : σ → Action σ α) (s : σ) : (get >>= f) s = f s s := rfl

@[simp] theorem set_bind (t : σ) (f : PUnit → Action σ α) (s : σ) :
    (set t >>= f) s = f ⟨⟩ t := rfl

@[simp] theorem modify_bind (g : σ → σ) (f : PUnit → Action σ α) (s : σ) :
    (modify g >>= f) s = f ⟨⟩ (g s) := rfl

@[simp] theorem ofExcept_ok_bind (r : β) (f : β → Action σ α) (s : σ) :
    ((ofExcept (.ok r) : Action σ β) >>= f) s = f r s := rfl

@[simp] theorem ofExcept_error_bind (e : Fault) (f : β → Action σ α) (s : σ) :
    ((ofExcept (.error e) : Action σ β) >>= f) s = .error e s := rfl

theorem bind_of_ok {f : α → Action σ β} {s t : σ} {r : α} (h : a s = .ok r t) :
    (a >>= f) s = f r t := by
  simp only [bind, EStateM.bind, h]

theorem bind_of_error {f : α → Action σ β} {s t : σ} {e : Fault} (h : a s = .error e t) :
    (a >>= f) s = .error e t := by
  simp only [bind, EStateM.bind, h]

theorem outcome_of_ok {s t : σ} {r : α} (h : a s = .ok r t) : a.outcome s = (.ok r, t) := by
  simp only [outcome, h]

theorem outcome_of_error {s t : σ} {e : Fault} (h : a s = .error e t) :
    a.outcome s = (.error e, t) := by
  simp only [outcome, h]

end Action

theorem addExact_of_lt {a b : UInt64} (h : a.toNat + b.toNat < UInt64.size) :
    addExact a b = .ok (a + b) := if_pos h

theorem addExact_of_le {a b : UInt64} (h : UInt64.size ≤ a.toNat + b.toNat) :
    addExact a b = .error .overflow := if_neg (Nat.not_lt.mpr h)

theorem subExact_of_le {a b : UInt64} (h : b ≤ a) : subExact a b = .ok (a - b) := if_pos h

@[simp] theorem fetch_of_lt {α : Type} {n i : Nat} (v : Vector α n) (h : i < n) :
    fetch v i = .ok v[i] := by
  simp [fetch, h]

theorem fetch_eq_error_iff {α : Type} {n i : Nat} {v : Vector α n} {f : Fault} :
    fetch v i = .error f ↔ n ≤ i ∧ f = .outOfBounds n i := by
  by_cases h : i < n
  · simp [h, Nat.not_le.mpr h]
  · simp [fetch, h, Nat.not_lt.mp h, eq_comm]

@[simp] theorem position_of_lt {n : Nat} {i : UInt64} (h : i.toNat < n) :
    position n i = .ok ⟨i.toNat, h⟩ := by
  simp [position, h]

theorem position_of_le {n : Nat} {i : UInt64} (h : n ≤ i.toNat) :
    position n i = .error (.outOfBounds n i.toNat) := by
  simp [position, Nat.not_lt.mpr h]

end RoundRobin

import RoundRobin.Kernel.Basic

/-!
Runs of a kernel whose switch requests are latched. A run is a list of operations; one that faults
leaves what it has done so far, and the run goes on.
-/

namespace RoundRobin

inductive Operation where
  | populate (app : Application)
  | tick
  | delay (ticks : UInt32)
  | request
  | take
  | swap (outgoing : Word)
  deriving DecidableEq, Repr

/-- What an operation answers. -/
inductive Reply where
  | done
  | populated (result : Except SetupError Unit)
  | taken (wasPending : Bool)
  | incoming (stackPointer : Word)

namespace Kernel

/-- Takes the latched request away and tells whether there was one. -/
def takeRequest : Action (Kernel Latch) Bool := do
  let k ← get
  set { k with signal := Latch.clear }
  return k.signal.pending

def perform : Operation → Action (Kernel Latch) Reply
  | .populate app => return .populated (← populate app)
  | .tick => do tick; return .done
  | .delay ticks => do delay ticks; return .done
  | .request => do pendSwitch; return .done
  | .take => return .taken (← takeRequest)
  | .swap outgoing => return .incoming (← swap outgoing)

/-- The kernel after an operation, whether it faults or not. -/
def after (k : Kernel Latch) (o : Operation) : Kernel Latch := ((perform o).outcome k).2

def run (k : Kernel Latch) (os : List Operation) : Kernel Latch := os.foldl after k

@[simp] theorem run_nil (k : Kernel Latch) : k.run [] = k := rfl

@[simp] theorem run_cons (k : Kernel Latch) (o : Operation) (os : List Operation) :
    k.run (o :: os) = (k.after o).run os := rfl

theorem run_append (k : Kernel Latch) (os ps : List Operation) :
    k.run (os ++ ps) = (k.run os).run ps := by
  simp [run]

end Kernel
end RoundRobin

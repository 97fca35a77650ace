import RoundRobin.Scheduler.Selection

/-!
A periodic workload: each application task, whenever it runs, notes the tick and its slot and then
sleeps for its period. Any system that can put its current task to sleep and let a tick pass can be
made to play it; the log of a play is the list of notes.
-/

namespace RoundRobin
namespace Periodic

/-- What a system needs for a play. To park is to let the current task sleep and pass the turn on;
to advance is to let one tick pass and pass the turn on. -/
structure Player (σ : Type) where
  now : σ → UInt64
  current : σ → UInt64
  park : UInt32 → Action σ Unit
  advance : Action σ Unit

/-- Tick and slot of every run of a task. -/
abbrev Log := List (UInt64 × UInt64)

/-- The application tasks run one after the other until the idle slot is current. Each of them
blocks when it has run, so `fuel` need not exceed the number of slots. -/
def round {σ : Type} (p : Player σ) (periods : Vector UInt32 4) : (fuel : Nat) → Action σ Log
  | 0 => return []
  | fuel + 1 => do
    let s ← get
    if p.current s = 0 then
      return []
    let period ← ofExcept (fetch periods (p.current s - 1).toNat)
    p.park period
    return (p.now s, p.current s) :: (← round p periods fuel)

/-- One round, and then `n` times a tick and another round. -/
def play {σ : Type} (p : Player σ) (periods : Vector UInt32 4) : Nat → Action σ Log
  | 0 => round p periods slotCount
  | n + 1 => do
    let first ← round p periods slotCount
    p.advance
    return first ++ (← play p periods n)

end Periodic

def Scheduler.player : Periodic.Player Scheduler where
  now := ticks
  current := current
  park period := do
    let _ ← sleep period
    let _ ← select
  advance := do
    tick
    let _ ← select

end RoundRobin

import RoundRobin.Kernel.Basic
import RoundRobin.Proofs.Kernel.Abstraction

/-!
Plays without a limit on the length of a round. A round is over when the idle slot is current and not
before; that the limit which makes it a function cuts nothing off is to be shown for each play. Main
statements: `Plays.play_eq`, and `follows_player` for a scheduler and for a kernel: both can be
followed on a bare scheduler.
-/

namespace RoundRobin
namespace Periodic

variable {σ : Type} {p : Player σ} {periods : Vector UInt32 4} {s t : σ} {log : Log}

/-- A whole round: as long as an application slot is current, its task makes a note and sleeps for
its period. -/
inductive Rounds (p : Player σ) (periods : Vector UInt32 4) : σ → Log → σ → Prop
  | idle {s : σ} (h : p.current s = 0) : Rounds p periods s [] s
  | step {s t u : σ} {period : UInt32} {log : Log} (h : p.current s ≠ 0)
      (hp : fetch periods (p.current s - 1).toNat = .ok period)
      (ht : p.park period s = .ok () t) (hu : Rounds p periods t log u) :
      Rounds p periods s ((p.now s, p.current s) :: log) u

/-- A whole play of `n` ticks. Each round, of `most` steps at most, ends with the idle slot
current. -/
inductive Plays (p : Player σ) (periods : Vector UInt32 4) (most : Nat) :
    Nat → σ → Log → σ → Prop
  | last {s t : σ} {log : Log} (h : Rounds p periods s log t) (hl : log.length ≤ most) :
      Plays p periods most 0 s log t
  | more {n : Nat} {s t u v : σ} {log rest : Log} (h : Rounds p periods s log t)
      (hl : log.length ≤ most) (ha : p.advance t = .ok () u)
      (hr : Plays p periods most n u rest v) : Plays p periods most (n + 1) s (log ++ rest) v

/-- A round that ends by itself is not cut off. -/
theorem Rounds.round_eq (h : Rounds p periods s log t) {fuel : Nat} (hf : log.length ≤ fuel) :
    round p periods fuel s = .ok log t := by
  induction h generalizing fuel with
  | idle h =>
    cases fuel with
    | zero => rfl
    | succ fuel =>
      simp only [round, Action.get_bind, if_pos h]
      rfl
  | step h hp ht hu ih =>
    cases fuel with
    | zero => cases hf
    | succ fuel =>
      have hrest := ih (Nat.le_of_succ_le_succ hf)
      simp only [round, Action.get_bind, if_neg h, hp, Action.ofExcept_ok_bind,
        Action.bind_of_ok ht, Action.bind_of_ok hrest]
      rfl

theorem Plays.play_eq {most n : Nat} (h : Plays p periods most n s log t)
    (hm : most ≤ slotCount) : play p periods n s = .ok log t := by
  induction h with
  | last h hl => exact h.round_eq (Nat.le_trans hl hm)
  | more h hl ha hr ih =>
    have hround := h.round_eq (Nat.le_trans hl hm)
    simp only [play, Action.bind_of_ok hround, Action.bind_of_ok ha, Action.bind_of_ok ih]
    rfl

/-- The player's states show schedulers: it tells the clock and the current slot of the one that is
shown, and changes it as the scheduler's own operations do, except for stack pointers. -/
structure Player.Follows (p : Player σ) (view : σ → Scheduler) : Prop where
  now : ∀ a, p.now a = (view a).ticks
  current : ∀ a, p.current a = (view a).current
  park : ∀ a d, (view a).current.toNat < 5 → (view a).resident ≠ idleSlot →
    (view a).ticks.toNat + d.toNat < UInt64.size →
    ∃ b, p.park d a = .ok () b ∧ ((view a).slept d).turned.Tracks (view b)
  advance : ∀ a, (view a).current.toNat < 5 → (view a).ticks.toNat + 1 < UInt64.size →
    ∃ b, p.advance a = .ok () b ∧ (view a).ticked.turned.Tracks (view b)

end Periodic

theorem Scheduler.follows_player : Scheduler.player.Follows id := by
  refine ⟨fun _ => rfl, fun _ => rfl, ?_, ?_⟩
  · intro s d hc hi hn
    have hsleep : sleep d s = .ok true (s.slept d) := sleep_eq hc hi hn
    have hselect : select (s.slept d) = .ok (s.slept d).next (s.slept d).turned := select_eq hc
    refine ⟨(s.slept d).turned, ?_, .refl _⟩
    simp only [player, Action.bind_of_ok hsleep, Action.bind_of_ok hselect]
    rfl
  · intro s hc hn
    have htick : tick s = .ok () s.ticked := tick_eq hn
    have hselect : select s.ticked = .ok s.ticked.next s.ticked.turned := select_eq hc
    refine ⟨s.ticked.turned, ?_, .refl _⟩
    simp only [player, Action.bind_of_ok htick, Action.bind_of_ok hselect]
    rfl

/-- A kernel's switch passes the turn on as a bare scheduler does. -/
theorem Kernel.swap_tracks {P : Type} {k : Kernel P} (hc : k.current.toNat < 5) (w : Word) :
    ∃ r k', swap w k = .ok r k' ∧ k.scheduler.turned.Tracks k'.scheduler :=
  ⟨_, _, swap_eq hc w, ((Scheduler.Tracks.refl k.scheduler).swapped w).symm⟩

theorem Kernel.follows_player {P : Type} [SwitchSignal P] (busy : UInt64 → Word) (idle : Word) :
    (Kernel.player busy idle : Periodic.Player (Kernel P)).Follows Kernel.scheduler := by
  refine ⟨fun _ => rfl, fun _ => rfl, ?_, ?_⟩
  · intro k d hc hi hn
    obtain ⟨r, k', hswap, ht⟩ :=
      swap_tracks (k := (k.withScheduler (k.scheduler.slept d)).pended) hc (busy k.current)
    refine ⟨k', ?_, ht⟩
    simp only [player, Action.bind_of_ok (delay_eq hc hi hn), Action.get_bind]
    exact Action.bind_of_ok hswap
  · intro k hc hn
    obtain ⟨r, k', hswap, ht⟩ :=
      swap_tracks (k := (k.withScheduler k.scheduler.ticked).pended) hc idle
    refine ⟨k', ?_, ht⟩
    simp only [player, Action.bind_of_ok (tick_eq hn)]
    exact Action.bind_of_ok hswap

end RoundRobin

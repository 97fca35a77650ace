import RoundRobin.Context

/-!
One task's stack: 256 words, used as a full-descending stack. A region is made ready for its task by
storing a first context at its top, as if the task had been preempted before its first instruction.
-/

namespace RoundRobin

structure Region where
  words : Vector Word 256
  deriving DecidableEq

namespace Region

def filled (w : Word) : Region := ⟨.replicate 256 w⟩

def zeroed : Region := filled .zero

def set (r : Region) (i : Nat) (w : Word) : Region := ⟨r.words.setIfInBounds i w⟩

/-- Stores words from index `i` upwards. -/
def overwrite (r : Region) (i : Nat) : List Word → Region
  | [] => r
  | w :: ws => (r.set i w).overwrite (i + 1) ws

/-- Stores words from index `i` upwards, if all of them fit. -/
def overwrite? (r : Region) (i : Nat) (ws : List Word) : Option Region :=
  if i + ws.length ≤ 256 then some (r.overwrite i ws) else none

/-- A push on a full-descending stack: the pointer moves down, then the word is stored. -/
def push : Region × Nat → Word → Region × Nat
  | (r, sp), w => (r.set (sp - 1) w, sp - 1)

/-- A task's first context in the order in which it is pushed, highest word first. -/
def firstPushes (e : Entry) : List Word :=
  [.number thumbStatus, .entry e, .number threadReturn] ++ .replicate 13 .zero

/-- Pushes the first context of a task that starts at `e` on an empty stack. The index is that of
the lowest word pushed. -/
def prepare (r : Region) (e : Entry) : Region × Nat :=
  (firstPushes e).foldl push (r, 256)

@[simp] theorem getElem_set (r : Region) (i j : Nat) (w : Word) (h : j < 256) :
    (r.set i w).words[j] = if i = j then w else r.words[j] := by
  simp [set, Vector.getElem_setIfInBounds]

theorem foldl_push_snd (ws : List Word) (r : Region) (n : Nat) :
    (ws.foldl push (r, n)).2 = n - ws.length := by
  induction ws generalizing r n with
  | nil => rfl
  | cons w ws ih => rw [List.foldl_cons, push, ih, List.length_cons]; omega

theorem foldl_push_words (ws : List Word) (r : Region) (n i : Nat) (hn : ws.length ≤ n)
    (hi : i < 256) :
    (ws.foldl push (r, n)).1.words[i] =
      if h : n - ws.length ≤ i ∧ i < n then ws[n - 1 - i] else r.words[i] := by
  induction ws generalizing r n with
  | nil =>
    rw [dif_neg (by simp)]
    rfl
  | cons w ws ih =>
    simp only [List.length_cons] at hn ⊢
    rw [List.foldl_cons, push, ih _ _ (by omega)]
    by_cases h : n - 1 - ws.length ≤ i ∧ i < n - 1
    · obtain ⟨k, hk⟩ : ∃ k, n - 1 - i = k + 1 := ⟨n - 2 - i, by omega⟩
      have hk' : n - 1 - 1 - i = k := by omega
      simp [h, hk, hk', show n - (ws.length + 1) ≤ i ∧ i < n by omega]
    · rw [dif_neg h, getElem_set]
      by_cases he : n - 1 = i
      · simp [he, show n - (ws.length + 1) ≤ i ∧ i < n by omega]
      · rw [if_neg he, dif_neg (by omega)]

@[simp] theorem length_firstPushes (e : Entry) : (firstPushes e).length = 16 := rfl

@[simp] theorem prepare_snd (r : Region) (e : Entry) : (r.prepare e).2 = 240 := by
  rw [prepare, foldl_push_snd, length_firstPushes]

theorem prepare_below (r : Region) (e : Entry) (i : Nat) (h : i < 240) :
    (r.prepare e).1.words[i] = r.words[i] := by
  rw [prepare, foldl_push_words _ _ _ _ (by rw [length_firstPushes]; omega) (by omega),
    dif_neg (by rw [length_firstPushes]; omega)]

theorem prepare_top (r : Region) (e : Entry) (i : Nat) (h : i < 16) :
    (r.prepare e).1.words[240 + i] = (Context.fresh e).words[i] := by
  rw [prepare, foldl_push_words _ _ _ _ (by rw [length_firstPushes]; omega) (by omega),
    dif_pos (by rw [length_firstPushes]; omega)]
  match i with
  | 0 | 1 | 2 | 3 | 4 | 5 | 6 | 7 => rfl
  | 8 | 9 | 10 | 11 | 12 | 13 | 14 | 15 => rfl
  | _ + 16 => omega

end Region
end RoundRobin

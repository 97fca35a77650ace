import RoundRobin.Memory.Region
import RoundRobin.Parameters

/-!
The stacks of all slots, back to back. Addresses count words from the start of the arena, so slot
`s` owns the words from `256 * s` up to `256 * s + 255`. A region also claims its top, where an
empty stack points; a common boundary of two regions therefore has two owners.
-/

namespace RoundRobin

structure Arena where
  regions : Vector Region 5
  deriving DecidableEq

namespace Arena

def zeroed : Arena := ⟨.replicate 5 .zeroed⟩

def base (s : Slot) : Int := 256 * (s.val : Int)

/-- One past the highest word of the slot's region: where its empty stack points. -/
def top (s : Slot) : Int := base s + 256

def region (a : Arena) (s : Slot) : Region := a.regions[s]

def setRegion (a : Arena) (s : Slot) (r : Region) : Arena := ⟨a.regions.set s r⟩

/-- The slot whose region holds the word of that number. -/
def holder (i : Fin 1280) : Slot := ⟨i.val / 256, by omega⟩

def word (a : Arena) (i : Fin 1280) : Word :=
  (a.region (holder i)).words[i.val % 256]

def setWord (a : Arena) (i : Fin 1280) (w : Word) : Arena :=
  a.setRegion (holder i) ((a.region (holder i)).set (i.val % 256) w)

/-- The word at an address, if the address lies in the arena. -/
def get? (a : Arena) (p : Int) : Option Word :=
  if h : 0 ≤ p ∧ p < 1280 then some (a.word ⟨p.toNat, by omega⟩) else none

/-- Stores a word; an address outside the arena changes nothing in it. -/
def set (a : Arena) (p : Int) (w : Word) : Arena :=
  if h : 0 ≤ p ∧ p < 1280 then a.setWord ⟨p.toNat, by omega⟩ w else a

/-- The sixteen words from `p` upwards as a context, if all of them lie in the arena. -/
def contextAt (a : Arena) (p : Int) : Option Context :=
  if h : 0 ≤ p ∧ p + 16 ≤ 1280 then
    some (.ofWords (.ofFn fun i : Fin 16 => a.word ⟨p.toNat + i.val, by omega⟩))
  else none

/-- Whether the slot's region claims the address, its top included. -/
def claims (s : Slot) : Word → Bool
  | .address p => base s ≤ p && p ≤ top s
  | _ => false

/-- Every slot whose region claims the address, in ascending order. -/
def owners (w : Word) : List Slot := (List.finRange 5).filter (claims · w)

/-- Makes a slot's region ready for a task that starts at `e`. The word is the task's saved stack
pointer. -/
def prepare (a : Arena) (s : Slot) (e : Entry) : Arena × Word :=
  let (r, i) := (a.region s).prepare e
  (a.setRegion s r, .address (base s + i))

@[simp] theorem region_setRegion (a : Arena) (s t : Slot) (r : Region) :
    (a.setRegion s r).region t = if s = t then r else a.region t := by
  simp [region, setRegion, Vector.getElem_set, Fin.ext_iff]

@[simp] theorem word_setWord (a : Arena) (i j : Fin 1280) (w : Word) :
    (a.setWord i w).word j = if i = j then w else a.word j := by
  rw [word, word, setWord, region_setRegion]
  by_cases hs : holder i = holder j
  · have hd : i.val / 256 = j.val / 256 := congrArg Fin.val hs
    rw [if_pos hs, Region.getElem_set, hs]
    by_cases hm : i.val % 256 = j.val % 256
    · rw [if_pos hm, if_pos (Fin.ext (by omega))]
    · rw [if_neg hm, if_neg (fun h => hm (by rw [h]))]
  · rw [if_neg hs, if_neg (fun h => hs (by rw [h]))]

theorem get?_set (a : Arena) (p q : Int) (w : Word) :
    (a.set p w).get? q = if p = q ∧ (a.get? q).isSome then some w else a.get? q := by
  by_cases hq : 0 ≤ q ∧ q < 1280
  · by_cases hp : 0 ≤ p ∧ p < 1280
    · by_cases h : p = q
      · subst h; simp [get?, set, hp]
      · have : ¬ p.toNat = q.toNat := by omega
        simp [get?, set, hp, hq, h, this]
    · have : ¬ p = q := by rintro rfl; exact hp hq
      simp [set, hp, this]
  · simp [get?, hq]

end Arena
end RoundRobin

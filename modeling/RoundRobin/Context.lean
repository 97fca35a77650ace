import RoundRobin.Parameters
import RoundRobin.Word

/-!
The saved context of a task that is not running: sixteen words at its saved stack pointer, lowest
address first. R4 to R11 lie lowest, where the switch code puts them; above them lie the eight words
that the processor itself saves.
-/

namespace RoundRobin

structure Context where
  r4r11 : Vector Word 8
  r0 : Word
  r1 : Word
  r2 : Word
  r3 : Word
  r12 : Word
  lr : Word
  pc : Word
  xpsr : Word
  deriving DecidableEq, Repr

namespace Context

def ofWords (w : Vector Word 16) : Context where
  r4r11 := .ofFn fun i => w[i]
  r0 := w[8]
  r1 := w[9]
  r2 := w[10]
  r3 := w[11]
  r12 := w[12]
  lr := w[13]
  pc := w[14]
  xpsr := w[15]

/-- The words of a context, lowest address first. -/
def words (c : Context) : Vector Word 16 :=
  #v[c.r4r11[0], c.r4r11[1], c.r4r11[2], c.r4r11[3],
    c.r4r11[4], c.r4r11[5], c.r4r11[6], c.r4r11[7],
    c.r0, c.r1, c.r2, c.r3, c.r12, c.lr, c.pc, c.xpsr]

/-- Whether the context resumes Thumb code. -/
def isThumb (c : Context) : Bool :=
  match c.xpsr with
  | .number n => n &&& thumbStatus != 0
  | _ => false

/-- The context of a task that starts at `e` with nothing in its registers. -/
def fresh (e : Entry) : Context where
  r4r11 := .replicate _ .zero
  r0 := .zero
  r1 := .zero
  r2 := .zero
  r3 := .zero
  r12 := .zero
  lr := .number threadReturn
  pc := .entry e
  xpsr := .number thumbStatus

/-- One line that names every field and writes numbers in decimal. -/
def describe (c : Context) : String :=
  "StackedFrame \x7b r4_r11: [" ++ ", ".intercalate (c.r4r11.toList.map Word.describe) ++ "]"
    ++ ", r0: " ++ c.r0.describe ++ ", r1: " ++ c.r1.describe
    ++ ", r2: " ++ c.r2.describe ++ ", r3: " ++ c.r3.describe
    ++ ", r12: " ++ c.r12.describe ++ ", lr: " ++ c.lr.describe
    ++ ", pc: " ++ c.pc.describe ++ ", xpsr: " ++ c.xpsr.describe ++ " \x7d"

@[simp] theorem words_ofWords (w : Vector Word 16) : (ofWords w).words = w := by
  apply Vector.ext
  intro i hi
  match i with
  | 0 | 1 | 2 | 3 | 4 | 5 | 6 | 7 => simp [words, ofWords]
  | 8 | 9 | 10 | 11 | 12 | 13 | 14 | 15 => simp [words, ofWords]
  | _ + 16 => omega

@[simp] theorem ofWords_words (c : Context) : ofWords c.words = c := by
  have h : (Vector.ofFn fun i : Fin 8 => c.words[i]) = c.r4r11 := by
    apply Vector.ext
    intro i hi
    match i with
    | 0 | 1 | 2 | 3 | 4 | 5 | 6 | 7 => simp [words]
    | _ + 8 => omega
  rw [ofWords, h]
  rfl

end Context
end RoundRobin

import ComponentForge.Text.Basic

/-!
# Positions

A position is a line and a column as an editor shows them: lines count from one, columns count
bytes from zero. Going through a text moves the position character by character, so the position
of an offset is a fold over the text before it.
-/

namespace ComponentForge

structure Position where
  line : Nat
  column : Nat
deriving DecidableEq, Repr

namespace Position

def first : Position :=
  ⟨1, 0⟩

def advance (p : Position) (c : Char) : Position :=
  if c = '\n' then ⟨p.line + 1, 0⟩ else ⟨p.line, p.column + c.utf8Size⟩

/-- The position just after a text that starts at the first position. -/
def after (before : Text) : Position :=
  before.foldl advance first

/-- Fails outside the text and inside a character. -/
def ofOffset? (text : Text) (offset : Nat) : Option Position :=
  (text.splitAtByte? offset).map fun (before, _) => after before

/-- Byte offset of the line that has `number` line feeds before it. -/
def lineOffset? : (number : Nat) → Text → Option Nat
  | 0, _ => some 0
  | _ + 1, [] => none
  | n + 1, c :: rest => (lineOffset? (if c = '\n' then n else n + 1) rest).map (c.utf8Size + ·)

/-- Offsets are words of the machine, which are below this bound. -/
def wordBound : Nat :=
  UInt64.size

/-- The sum of two offsets, if it lies before the end of a text of that size. Of a sum beyond the last
word only what is left over counts, and that may lie before the end again. -/
def sumBefore? (size a b : Nat) : Option Nat :=
  if a + b < size then some (a + b)
  else if (a + b) % wordBound < size then some ((a + b) % wordBound)
  else none

/-- The byte offset at which a position points, if it lies before the end of the text. -/
def offset? (text : Text) (p : Position) : Option Nat :=
  match p.line with
  | 0 => none
  | n + 1 => do sumBefore? text.byteSize (← lineOffset? n text) p.column

/-- In a text that a machine can hold the sum is always taken as a word. -/
theorem sumBefore?_eq_wrapped {size : Nat} (h : size ≤ wordBound) (a b : Nat) : sumBefore? size a b =
    if (a + b) % wordBound < size then some ((a + b) % wordBound) else none := by
  rw [sumBefore?]
  split
  · rename_i inside
    have word : (a + b) % wordBound = a + b := Nat.mod_eq_of_lt (Nat.lt_of_lt_of_le inside h)
    rw [word, if_pos inside]
  · rfl

theorem sumBefore?_of_lt {size a b : Nat} (h : a + b < size) : sumBefore? size a b = some (a + b) :=
  if_pos h

/-- A sum that is a word lies before the end, or the position points nowhere. -/
theorem sumBefore?_of_word {size a b : Nat} (h : a + b < wordBound) :
    sumBefore? size a b = if a + b < size then some (a + b) else none := by
  rw [sumBefore?, Nat.mod_eq_of_lt h]
  split <;> rfl

theorem lt_of_sumBefore? {size a b offset : Nat} (h : sumBefore? size a b = some offset) :
    offset < size := by
  rw [sumBefore?] at h
  split at h
  · cases h
    assumption
  · split at h
    · cases h
      assumption
    · cases h

theorem after_append (before passed : Text) :
    after (before ++ passed) = passed.foldl advance (after before) :=
  List.foldl_append

/-- Lines count the line feeds before the position. -/
theorem after_line (before : Text) : (after before).line = before.count '\n' + 1 := by
  suffices h : ∀ p : Position, (before.foldl advance p).line = p.line + before.count '\n' by
    simpa [after, first, Nat.add_comm] using h first
  intro p
  induction before generalizing p with
  | nil => simp
  | cons c rest ih =>
    by_cases h : c = '\n'
    · simp [ih, advance, h, Nat.add_comm, Nat.add_left_comm]
    · simp [ih, advance, h]

end Position

end ComponentForge

import ComponentForge.Template.Indent
import ComponentForge.Proofs.Path
import Mathlib.Data.List.TakeWhile

/-!
# Indentation line by line

Every line of a text but the first is a run of spaces and a rest that does not begin with a space.
Reindenting keeps the rests and the first line, and changes the length of each run by itself. As it
keeps the rests, no run merges with what follows it, and reindenting twice is reindenting once.
-/

namespace ComponentForge.Template

/-- A line after the first: as many spaces, and what comes after them. -/
structure Line where
  spaces : Nat
  rest : Text
  flush : rest.head? ≠ some ' '
  unbroken : '\n' ∉ rest

/-- The lines of a text. -/
structure Lines where
  first : Text
  later : List Line
  unbroken : '\n' ∉ first

namespace Line

def text (line : Line) : Text :=
  List.replicate line.spaces ' ' ++ line.rest

/-- Two spaces count as one level, and an odd space for nothing. -/
def reindent (width : Nat) (line : Line) : Line :=
  { line with spaces := line.spaces / 2 * width }

theorem reindent_reindent (k m : Nat) (line : Line) :
    (line.reindent (2 * k)).reindent m = line.reindent (k * m) := by
  have levels : line.spaces / 2 * (2 * k) / 2 = line.spaces / 2 * k := by
    rw [Nat.mul_left_comm, Nat.mul_div_cancel_left _ (by decide)]
  simp only [reindent, levels, Nat.mul_assoc]

theorem unbroken_text (line : Line) : '\n' ∉ line.text := by
  simp [text, line.unbroken]

/-- The line that has this text. -/
def ofText (text : Text) (unbroken : '\n' ∉ text) : Line where
  spaces := (text.takeWhile (· == ' ')).length
  rest := text.dropWhile (· == ' ')
  flush := by
    intro h
    have := List.head?_dropWhile_not (· == ' ') text
    simp [h] at this
  unbroken h := unbroken ((List.dropWhile_suffix _).subset h)

theorem text_ofText (text : Text) (unbroken : '\n' ∉ text) : (ofText text unbroken).text = text := by
  have run : text.takeWhile (· == ' ') =
      List.replicate (text.takeWhile (· == ' ')).length ' ' := by
    refine List.eq_replicate_iff.2 ⟨rfl, fun c hc => ?_⟩
    simpa using List.mem_takeWhile_imp hc
  rw [Line.text, ofText, ← run, List.takeWhile_append_dropWhile]

theorem spaces_append_inj {a b : Nat} {rest rest' : Text} (flush : rest.head? ≠ some ' ')
    (flush' : rest'.head? ≠ some ' ')
    (h : List.replicate a ' ' ++ rest = List.replicate b ' ' ++ rest') : a = b ∧ rest = rest' := by
  induction a generalizing b with
  | zero =>
    cases b with
    | zero => exact ⟨rfl, h⟩
    | succ b => exact absurd (congrArg List.head? h) flush
  | succ a ih =>
    cases b with
    | zero => exact absurd (congrArg List.head? h).symm flush'
    | succ b =>
      obtain ⟨rfl, same⟩ := ih (List.cons.inj h).2
      exact ⟨rfl, same⟩

theorem text_injective : Function.Injective text := by
  rintro ⟨spaces, rest, flush, _⟩ ⟨spaces', rest', flush', _⟩ h
  obtain ⟨rfl, rfl⟩ := spaces_append_inj flush flush' h
  rfl

end Line

namespace Lines

def text (lines : Lines) : Text :=
  Text.join ['\n'] (lines.first :: lines.later.map Line.text)

def reindent (width : Nat) (lines : Lines) : Lines :=
  { lines with later := lines.later.map (Line.reindent width) }

theorem reindent_reindent (k m : Nat) (lines : Lines) :
    (lines.reindent (2 * k)).reindent m = lines.reindent (k * m) := by
  simp only [reindent, List.map_map]
  congr 2
  funext line
  exact line.reindent_reindent k m

/-- The line feed before a later line is read with it. -/
def feed (later : List Line) : Text :=
  later.flatMap fun line => '\n' :: line.text

theorem text_eq (lines : Lines) : lines.text = lines.first ++ feed lines.later := by
  rw [text]
  generalize lines.first = first
  induction lines.later generalizing first with
  | nil => simp [Text.join, feed]
  | cons line later ih =>
    have further := ih line.text
    rw [List.map_cons, Text.join, further]
    · simp [feed]
    · simp

theorem pieces_text (lines : Lines) :
    Text.pieces (· == '\n') lines.text = lines.first :: lines.later.map Line.text := by
  obtain ⟨first, later, unbroken⟩ := lines
  rw [text_eq]
  dsimp only
  have whole : ∀ {text : Text}, '\n' ∉ text → Text.pieces (· == '\n') text = [text] := by
    intro text absent
    refine Text.pieces_of_notMem fun c hc => ?_
    rw [beq_eq_false_iff_ne]
    rintro rfl
    exact absent hc
  induction later generalizing first with
  | nil => simpa [feed] using whole unbroken
  | cons line later ih =>
    have further := ih line.text line.unbroken_text
    rw [feed, List.flatMap_cons, List.cons_append, Text.pieces_append_cons (by rfl), whole unbroken,
      ← feed, further]
    rfl

/-- A text has its lines in one way only. -/
theorem text_injective : Function.Injective text := by
  intro lines other h
  have same := lines.pieces_text
  rw [h, other.pieces_text] at same
  obtain ⟨same_first, same_later⟩ := List.cons.inj same
  obtain ⟨first, later, unbroken⟩ := lines
  obtain ⟨first', later', unbroken'⟩ := other
  obtain rfl : first' = first := same_first
  obtain rfl := List.map_injective_iff.2 Line.text_injective same_later
  rfl

/-- Every text has lines. -/
theorem exists_text (text : Text) : ∃ lines : Lines, lines.text = text := by
  induction text with
  | nil => exact ⟨⟨[], [], by simp⟩, rfl⟩
  | cons c rest ih =>
    obtain ⟨lines, rfl⟩ := ih
    rw [text_eq]
    by_cases feeds : c = '\n'
    · subst feeds
      refine ⟨⟨[], .ofText lines.first lines.unbroken :: lines.later, by simp⟩, ?_⟩
      rw [text_eq]
      simp [feed, Line.text_ofText]
    · have unbroken : '\n' ∉ c :: lines.first := by
        rw [List.mem_cons, not_or]
        exact ⟨fun same => feeds same.symm, lines.unbroken⟩
      exact ⟨⟨c :: lines.first, lines.later, unbroken⟩, text_eq _⟩

end Lines

variable {width : Nat}

/-- Inside a line nothing changes. -/
theorem reindentFrom_unbroken {body : Text} (unbroken : '\n' ∉ body) (rest : Text) :
    reindentFrom width none (body ++ rest) = body ++ reindentFrom width none rest := by
  induction body with
  | nil => rfl
  | cons c body ih =>
    rw [List.mem_cons, not_or] at unbroken
    rw [List.cons_append, reindentFrom, if_neg (Ne.symm unbroken.1), ih unbroken.2]
    rfl

theorem reindentFrom_spaces (read spaces : Nat) (rest : Text) :
    reindentFrom width (some read) (List.replicate spaces ' ' ++ rest) =
      reindentFrom width (some (read + spaces)) rest := by
  induction spaces generalizing read with
  | zero => rfl
  | succ spaces ih =>
    rw [List.replicate_succ, List.cons_append, reindentFrom, if_pos rfl, ih, Nat.add_right_comm,
      Nat.add_assoc]

/-- The run of spaces ends where something else comes, be it the end of the text. -/
theorem reindentFrom_flush {rest : Text} (flush : rest.head? ≠ some ' ') (read : Nat) :
    reindentFrom width (some read) rest =
      indentation width read ++ reindentFrom width none rest := by
  cases rest with
  | nil => simp [reindentFrom]
  | cons c rest =>
    have not_space : c ≠ ' ' := by simpa using flush
    rw [reindentFrom, reindentFrom, if_neg not_space]

theorem reindentFrom_line (line : Line) {rest : Text} (ends : rest.head? ≠ some ' ') :
    reindentFrom width (some 0) (line.text ++ rest) =
      (line.reindent width).text ++ reindentFrom width none rest := by
  have flush : (line.rest ++ rest).head? ≠ some ' ' := by
    cases h : line.rest with
    | nil => exact ends
    | cons c more => simpa [h] using line.flush
  rw [Line.text, List.append_assoc, reindentFrom_spaces, reindentFrom_flush flush,
    reindentFrom_unbroken line.unbroken, Nat.zero_add, ← List.append_assoc]
  rfl

theorem reindentFrom_feed (later : List Line) : reindentFrom width none (Lines.feed later) =
    Lines.feed (later.map (Line.reindent width)) := by
  induction later with
  | nil => rfl
  | cons line later ih =>
    have ends : (Lines.feed later).head? ≠ some ' ' := by
      cases later with
      | nil => simp [Lines.feed]
      | cons next more => simp [Lines.feed]
    rw [Lines.feed, List.flatMap_cons, List.cons_append, reindentFrom, if_pos rfl, ← Lines.feed,
      reindentFrom_line line ends, ih]
    rfl

theorem reindent_text (lines : Lines) : reindent width lines.text = (lines.reindent width).text := by
  rw [reindent, Lines.text_eq, reindentFrom_unbroken lines.unbroken, reindentFrom_feed, Lines.text_eq]
  rfl

/-- A text has its lines in exactly one way. Reindenting keeps the first of them and the rest of each
other one, and a run of spaces becomes as many times the width as there are levels in it. So a text
that was reindented to a width with whole levels can be reindented further. -/
theorem reindent_by_lines (text : Text) : ∃ lines : Lines, lines.text = text ∧
    (∀ other : Lines, other.text = text → other = lines) ∧
    (∀ width, reindent width text = (lines.reindent width).text) ∧
    (∀ k m, reindent m (reindent (2 * k) text) = reindent (k * m) text) ∧
    reindent 2 (reindent 2 text) = reindent 2 text := by
  obtain ⟨lines, rfl⟩ := Lines.exists_text text
  have twice : ∀ k m, reindent m (reindent (2 * k) lines.text) = reindent (k * m) lines.text := by
    intro k m
    rw [reindent_text, reindent_text, Lines.reindent_reindent, reindent_text]
  exact ⟨lines, rfl, fun other same => Lines.text_injective same, fun width => reindent_text lines,
    twice, twice 1 2⟩

/-- Spaces before a line feed and at the end of the text are a run, too, and no carriage return is. -/
example : reindent 3 "  a\n   b\r\n     \n\n  ".toList = "  a\n   b\r\n      \n\n   ".toList := by
  decide

end ComponentForge.Template

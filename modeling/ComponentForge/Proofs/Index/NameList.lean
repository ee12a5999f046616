import ComponentForge.Proofs.Index.EntryLines
import ComponentForge.Proofs.Letter.Words
import ComponentForge.Proofs.Path

/-!
# Lists of names

The list between the brackets of an export statement, read as the statement itself is read: names with
commas between them, with spaces, tabs and line breaks anywhere around them, and perhaps with a comma
after the last one. What is read of a text that is put together follows from two equations, for a text
that is cut at a comma and for a text that is cut at a space.
-/

namespace ComponentForge.Index

open Text

/-- A character that may stand around the names of a list. -/
def isListSpace (c : Char) : Bool :=
  Pattern.isSpaceOrTab c || c == '\n' || c == '\r'

/-- The words of a text that are separated by white space. -/
def wordsOf (text : Text) : List Text :=
  (text.pieces isListSpace).filter fun word => !word.isEmpty

/-- The words of each piece between commas. -/
def cells (text : Text) : List (List Text) :=
  (text.pieces (· == ',')).map wordsOf

/-- The cell holds one identifier. -/
def Named : List Text → Prop
  | [x] => IsIdentifier x
  | _ => False

/-- There is an identifier in each cell, but perhaps not in the last. -/
def Readable : List (List Text) → Prop
  | [] => True
  | [cell] => cell = [] ∨ Named cell
  | cell :: more => Named cell ∧ Readable more

instance decidableNamed : (cell : List Text) → Decidable (Named cell)
  | [] => inferInstanceAs (Decidable False)
  | [x] => inferInstanceAs (Decidable (IsIdentifier x))
  | _ :: _ :: _ => inferInstanceAs (Decidable False)

instance decidableReadable : (cells : List (List Text)) → Decidable (Readable cells)
  | [] => inferInstanceAs (Decidable True)
  | [cell] => inferInstanceAs (Decidable (cell = [] ∨ Named cell))
  | cell :: next :: more =>
    have := decidableReadable (next :: more)
    inferInstanceAs (Decidable (Named cell ∧ Readable (next :: more)))

/-- The words of a text, whether or not it is a list. -/
def written (text : Text) : List Text :=
  (cells text).flatten

/-- The names of a list, if the text is one. -/
def names? (text : Text) : Option (List Text) :=
  if Readable (cells text) then some (written text) else none

/-- There is no word after the last comma of the text. -/
def AwaitsName (text : Text) : Prop :=
  (cells text).getLast? = some []

instance (text : Text) : Decidable (AwaitsName text) :=
  inferInstanceAs (Decidable ((cells text).getLast? = some []))

/-- Two rows of cells with the last cell of the one and the first of the other put together. -/
def merge : List (List Text) → List (List Text) → List (List Text)
  | [], cells => cells
  | [w], z :: more => (w ++ z) :: more
  | [w], [] => [w]
  | w :: v :: more, cells => w :: merge (v :: more) cells

/-- What stands after the last line break. -/
def lastLine (text : Text) : Text :=
  (text.splitEnd (· != '\n')).2

/-- What stands before the last line break. -/
def linesAbove (text : Text) : Text :=
  (text.splitEnd (· != '\n')).1.dropLast

/-- A line of its own above the closing bracket is the place of a new name. If there is no other line
between the brackets, the name gets no comma before it, so there must be none missing; otherwise the line
above has the comma or gets it. No name may follow on the line of the closing bracket. -/
def TakesName (x inside : Text) : Prop :=
  if '\n' ∈ linesAbove inside then
    (AwaitsName (linesAbove inside) → (lastLine (linesAbove inside)).trimEnd.endsWith ',') ∧
      ∀ y ∈ written (lastLine inside), y = x
  else AwaitsName (linesAbove inside) ∧ written (lastLine inside) = []

instance (x inside : Text) : Decidable (TakesName x inside) :=
  inferInstanceAs (Decidable (ite _ _ _))

section Cells

variable {text x u v : Text} {w z : List Text} {A Z : List (List Text)}

theorem merge_append (A : List (List Text)) (w z : List Text) (Z : List (List Text)) :
    merge (A ++ [w]) (z :: Z) = A ++ (w ++ z) :: Z := by
  induction A with
  | nil => rfl
  | cons first A ih =>
    cases A with
    | nil => rfl
    | cons second A => simpa [merge] using ih

theorem wordsOf_space {c : Char} (space : isListSpace c) (u v : Text) :
    wordsOf (u ++ c :: v) = wordsOf u ++ wordsOf v := by
  rw [wordsOf, pieces_append_cons space, List.filter_append]
  rfl

theorem wordsOf_word (hne : u ≠ []) (h : ∀ c ∈ u, isListSpace c = false) : wordsOf u = [u] := by
  simp [wordsOf, pieces_of_notMem h, hne]

theorem cells_comma (u v : Text) : cells (u ++ ',' :: v) = cells u ++ cells v := by
  have pieces : Text.pieces (· == ',') (u ++ ',' :: v) =
      u.pieces (· == ',') ++ v.pieces (· == ',') := pieces_append_cons rfl u v
  rw [cells, pieces, List.map_append]
  rfl

theorem cells_of_notMem (h : ',' ∉ text) : cells text = [wordsOf text] := by
  rw [cells, pieces_of_notMem]
  · rfl
  · intro c hc
    simpa using fun same : c = ',' => h (same ▸ hc)

theorem cells_ne_nil (text : Text) : cells text ≠ [] := by
  simp [cells, pieces_ne_nil]

theorem exists_cells_concat (text : Text) : ∃ A w, cells text = A ++ [w] := by
  rcases List.eq_nil_or_concat (cells text) with none | ⟨A, w, h⟩
  · exact absurd none (cells_ne_nil text)
  · exact ⟨A, w, by rw [h, List.concat_eq_append]⟩

theorem exists_cells_cons (text : Text) : ∃ z Z, cells text = z :: Z :=
  List.exists_cons_of_ne_nil (cells_ne_nil text)

/-- The piece after the last comma. -/
theorem exists_lastPiece (u : Text) :
    ∃ a p A, u = a ++ p ∧ ',' ∉ p ∧ ∀ t, cells (a ++ t) = A ++ cells t := by
  induction u using List.reverseRecOn with
  | nil => exact ⟨[], [], [], rfl, by simp, fun t => rfl⟩
  | append_singleton u c ih =>
    obtain ⟨a, p, A, rfl, hp, cells_a⟩ := ih
    by_cases comma : c = ','
    · subst comma
      refine ⟨a ++ p ++ [','], [], cells (a ++ p), by simp, by simp, fun t => ?_⟩
      rw [← cells_comma]
      simp
    · exact ⟨a, p ++ [c], A, by simp, by simp [hp, Ne.symm comma], cells_a⟩

/-- The piece before the first comma. -/
theorem exists_firstPiece (v : Text) :
    ∃ q r Z, v = q ++ r ∧ ',' ∉ q ∧ ∀ t, ',' ∉ t → cells (t ++ r) = wordsOf t :: Z := by
  by_cases comma : ',' ∈ v
  · obtain ⟨q, r, rfl, hq⟩ := List.eq_append_cons_of_mem comma
    refine ⟨q, ',' :: r, cells r, rfl, hq, fun t ht => ?_⟩
    rw [cells_comma, cells_of_notMem ht]
    rfl
  · refine ⟨v, [], [], by simp, comma, fun t ht => ?_⟩
    rw [List.append_nil, cells_of_notMem ht]

theorem isListSpace_comma : isListSpace ',' = false := rfl

theorem cells_space {c : Char} (space : isListSpace c) (u v : Text) :
    cells (u ++ c :: v) = merge (cells u) (cells v) := by
  obtain ⟨a, p, A, rfl, hp, cells_a⟩ := exists_lastPiece u
  obtain ⟨q, r, Z, rfl, hq, cells_r⟩ := exists_firstPiece v
  have hc : ',' ≠ c := by
    rintro rfl
    simp [isListSpace_comma] at space
  have middle : ',' ∉ p ++ c :: q := by simp [hp, hq, hc]
  have regroup : a ++ p ++ c :: (q ++ r) = a ++ ((p ++ c :: q) ++ r) := by simp
  rw [regroup, cells_a, cells_r _ middle, cells_a, cells_of_notMem hp, cells_r _ hq, merge_append,
    wordsOf_space space]

/-- White space at the end of a text makes no difference. -/
theorem cells_append_spaces (u : Text) (h : ∀ c ∈ v, isListSpace c) : cells (u ++ v) = cells u := by
  induction v generalizing u with
  | nil => rw [List.append_nil]
  | cons c v ih =>
    have spaces := ih [] fun d hd => h d (List.mem_cons_of_mem c hd)
    obtain ⟨A, w, hu⟩ := exists_cells_concat u
    rw [List.nil_append] at spaces
    rw [cells_space (h c List.mem_cons_self), spaces, hu]
    exact (merge_append A w [] []).trans (by simp)

/-- So does white space at its start. -/
theorem cells_spaces_append (h : ∀ c ∈ u, isListSpace c) (v : Text) : cells (u ++ v) = cells v := by
  induction u with
  | nil => rfl
  | cons c u ih =>
    obtain ⟨z, Z, hv⟩ := exists_cells_cons (u ++ v)
    have first := cells_space (h c List.mem_cons_self) [] (u ++ v)
    rw [List.nil_append, hv] at first
    rw [List.cons_append, first, ← ih fun d hd => h d (List.mem_cons_of_mem c hd), hv]
    exact merge_append [] [] z Z

theorem IsIdentifier.not_isListSpace (h : IsIdentifier x) : ∀ c ∈ x, isListSpace c = false := by
  intro c hc
  rw [← Bool.not_eq_true]
  intro space
  have nonblank := h.nonblank hc
  simp only [isListSpace, Bool.or_eq_true, beq_iff_eq] at space
  rcases space with (space | rfl) | rfl
  · rw [isBlank_of_isSpaceOrTab space] at nonblank
    cases nonblank
  · cases nonblank
  · cases nonblank

theorem cells_identifier (h : IsIdentifier x) : cells x = [[x]] := by
  rw [cells_of_notMem (h.notMem (by decide)), wordsOf_word h.ne_nil h.not_isListSpace]

end Cells

section Names

variable {text x : Text} {w z cell : List Text} {A B Z : List (List Text)} {old : List Text}

theorem readable_cons (hB : B ≠ []) : Readable (cell :: B) ↔ Named cell ∧ Readable B := by
  cases B with
  | nil => exact absurd rfl hB
  | cons next more => rfl

theorem readable_append (hB : B ≠ []) :
    Readable (A ++ B) ↔ (∀ cell ∈ A, Named cell) ∧ Readable B := by
  induction A with
  | nil => simp
  | cons first A ih =>
    rw [List.cons_append, readable_cons (by simp [hB]), ih, List.forall_mem_cons, and_assoc]

theorem Named.ne_nil (h : Named cell) : cell ≠ [] := by
  rintro rfl
  exact h

/-- A cell with an identifier has nothing else. -/
theorem named_around_iff (identifier : IsIdentifier x) : Named (w ++ x :: z) ↔ w = [] ∧ z = [] := by
  constructor
  · intro named
    cases w with
    | nil =>
      cases z with
      | nil => exact ⟨rfl, rfl⟩
      | cons y z => exact named.elim
    | cons y w =>
      cases w <;> exact named.elim
  · rintro ⟨rfl, rfl⟩
    exact identifier

theorem Named.of_append (h : Named (w ++ z)) (hne : w ≠ []) : Named w ∧ z = [] := by
  obtain ⟨y, rest, rfl⟩ := List.exists_cons_of_ne_nil hne
  cases rest with
  | nil =>
    cases z with
    | nil => exact ⟨h, rfl⟩
    | cons _ _ => exact h.elim
  | cons _ _ => exact h.elim

theorem Named.identifier (h : Named cell) (mem : x ∈ cell) : IsIdentifier x := by
  cases cell with
  | nil => exact h.elim
  | cons y rest =>
    cases rest with
    | nil => exact List.mem_singleton.1 mem ▸ h
    | cons _ _ => exact h.elim

theorem Readable.named_head (h : Readable (cell :: Z)) (hne : cell ≠ []) : Named cell := by
  cases Z with
  | nil => exact h.resolve_left hne
  | cons next more => exact h.1

theorem Readable.replace_head (h : Readable (cell :: Z)) {other : List Text} (named : Named other) :
    Readable (other :: Z) := by
  cases Z with
  | nil => exact Or.inr named
  | cons next more => exact ⟨named, h.2⟩

theorem concat_eq_cons_iff {xs : List Text} : xs ++ [x] = x :: xs ↔ ∀ y ∈ xs, y = x := by
  induction xs with
  | nil => simp
  | cons y xs ih =>
    rw [List.forall_mem_cons, ← ih, List.cons_append, List.cons.injEq]
    constructor
    · rintro ⟨rfl, rest⟩
      exact ⟨rfl, rest⟩
    · rintro ⟨rfl, rest⟩
      exact ⟨rfl, rest⟩

theorem names?_eq_some_iff : names? text = some old ↔ Readable (cells text) ∧ written text = old := by
  rw [names?]
  split
  · simp_all
  · simp_all

theorem Readable.of_mem (h : Readable A) (mem : cell ∈ A) : cell = [] ∨ Named cell := by
  induction A with
  | nil => cases mem
  | cons first more ih =>
    cases more with
    | nil => exact List.mem_singleton.1 mem ▸ h
    | cons next more =>
      rcases List.mem_cons.1 mem with rfl | mem
      · exact Or.inr h.1
      · exact ih h.2 mem

theorem exists_piece {isBoundary : Char → Bool} {c : Char} (mem : c ∈ text)
    (inside : isBoundary c = false) : ∃ piece ∈ text.pieces isBoundary, c ∈ piece := by
  have kept : c ∈ (text.pieces isBoundary).flatten := by
    rw [Casing.pieces_flatten]
    simp [mem, inside]
  exact List.mem_flatten.1 kept

/-- The characters of a list. -/
theorem mem_of_readable (h : Readable (cells text)) {c : Char} (hc : c ∈ text) :
    isListSpace c ∨ c = ',' ∨ isIdentifierChar c := by
  by_cases comma : c = ','
  · exact Or.inr (Or.inl comma)
  by_cases space : isListSpace c
  · exact Or.inl space
  have in_piece : ∃ piece ∈ text.pieces (· == ','), c ∈ piece :=
    exists_piece hc (by simpa using comma)
  obtain ⟨piece, hpiece, hc⟩ := in_piece
  obtain ⟨word, hword, hc⟩ := exists_piece hc (by simpa using space)
  have kept : word ∈ wordsOf piece :=
    List.mem_filter.2 ⟨hword, by simpa using List.ne_nil_of_mem hc⟩
  rcases h.of_mem (List.mem_map.2 ⟨piece, hpiece, rfl⟩) with vacant | named
  · simp [vacant] at kept
  · exact Or.inr (Or.inr ((named.identifier kept).chars c hc))

/-! In a row of cells the words `w` stand above the line break before the closing bracket and the words
`z` below it. The name goes between them, with a comma on one side or without one. -/

section Insert

variable (identifier : IsIdentifier x) (readable : Readable (A ++ (w ++ z) :: Z))

include identifier readable

/-- Without a comma the name needs a cell of its own that the other names leave to it. -/
theorem readable_within_iff :
    (Readable (A ++ (w ++ x :: z) :: Z) ∧
        (A ++ (w ++ x :: z) :: Z).flatten = (A ++ (w ++ z) :: Z).flatten ++ [x]) ↔
      w = [] ∧ (z :: Z).flatten = [] := by
  obtain ⟨named, rest⟩ := (readable_append (by simp)).1 readable
  rw [readable_append (by simp)]
  constructor
  · rintro ⟨⟨-, cell⟩, -⟩
    obtain ⟨rfl, rfl⟩ := (named_around_iff identifier).1 (cell.named_head (by simp))
    cases Z with
    | nil => exact ⟨rfl, rfl⟩
    | cons next more => exact absurd rest.1 id
  · rintro ⟨rfl, empty⟩
    obtain ⟨rfl, empty⟩ := List.append_eq_nil_iff.1 empty
    cases Z with
    | nil => exact ⟨⟨named, Or.inr identifier⟩, by simp⟩
    | cons next more => exact absurd rest.1 id

/-- With a comma below it the name comes before the names that are there. -/
theorem readable_before_iff (awaits : w = []) :
    (Readable (A ++ [x] :: z :: Z) ∧
        (A ++ [x] :: z :: Z).flatten = (A ++ (w ++ z) :: Z).flatten ++ [x]) ↔
      ∀ y ∈ (z :: Z).flatten, y = x := by
  subst awaits
  obtain ⟨named, rest⟩ := (readable_append (by simp)).1 readable
  have same : (A ++ [x] :: z :: Z).flatten = (A ++ ([] ++ z) :: Z).flatten ++ [x] ↔
      (z :: Z).flatten ++ [x] = x :: (z :: Z).flatten := by
    simp [eq_comm]
  rw [same, concat_eq_cons_iff, and_iff_right_iff_imp]
  intro _
  exact (readable_append (by simp)).2 ⟨named, (readable_cons (by simp)).2 ⟨identifier, rest⟩⟩

/-- With a comma above it the name needs another one there. -/
theorem readable_after_iff :
    (Readable (A ++ w :: (x :: z) :: Z) ∧
        (A ++ w :: (x :: z) :: Z).flatten = (A ++ (w ++ z) :: Z).flatten ++ [x]) ↔
      w ≠ [] ∧ ∀ y ∈ (z :: Z).flatten, y = x := by
  obtain ⟨named, rest⟩ := (readable_append (by simp)).1 readable
  have same : (A ++ w :: (x :: z) :: Z).flatten = (A ++ (w ++ z) :: Z).flatten ++ [x] ↔
      (z :: Z).flatten ++ [x] = x :: (z :: Z).flatten := by
    simp [eq_comm]
  rw [same, concat_eq_cons_iff, readable_append (by simp), readable_cons (by simp)]
  constructor
  · rintro ⟨⟨-, above, -⟩, only⟩
    exact ⟨above.ne_nil, only⟩
  · rintro ⟨above, only⟩
    obtain ⟨above_named, rfl⟩ := (rest.named_head (by simp [above])).of_append above
    exact ⟨⟨named, above_named, rest.replace_head identifier⟩, only⟩

end Insert

section Lines

variable {upper lower head breaks : Text} (identifier : IsIdentifier x)
  (list : names? (upper ++ '\n' :: lower) = some old)

theorem cells_lines (u v : Text) : cells (u ++ '\n' :: v) = merge (cells u) (cells v) :=
  cells_space rfl u v

theorem awaitsName_iff (h : cells text = A ++ [w]) : AwaitsName text ↔ w = [] := by
  simp [AwaitsName, h]

include identifier in
/-- The line of a new name has no other words. -/
theorem cells_entryLine : cells (' ' :: ' ' :: x) = [[x]] := by
  have spaces : ∀ c ∈ [' ', ' '], isListSpace c := List.all_eq_true.1 rfl
  have line := cells_spaces_append spaces x
  rw [cells_identifier identifier] at line
  exact line

include list in
/-- The last cell above a line break and the first one below make up one cell of the list. -/
theorem exists_cells : ∃ A w z Z, cells upper = A ++ [w] ∧ cells lower = z :: Z ∧
    Readable (A ++ (w ++ z) :: Z) ∧ old = (A ++ (w ++ z) :: Z).flatten := by
  obtain ⟨A, w, hu⟩ := exists_cells_concat upper
  obtain ⟨z, Z, hl⟩ := exists_cells_cons lower
  rw [names?_eq_some_iff, written, cells_lines, hu, hl, merge_append] at list
  obtain ⟨readable, rfl⟩ := list
  exact ⟨A, w, z, Z, hu, hl, readable, rfl⟩

include identifier list

theorem names?_within_iff :
    names? (upper ++ '\n' :: (' ' :: ' ' :: x ++ '\n' :: lower)) = some (old ++ [x]) ↔
      AwaitsName upper ∧ written lower = [] := by
  obtain ⟨A, w, z, Z, hu, hl, readable, rfl⟩ := exists_cells list
  have line : merge [[x]] (z :: Z) = (x :: z) :: Z := merge_append [] [x] z Z
  rw [names?_eq_some_iff, written, cells_lines, cells_lines, cells_entryLine identifier, hu, hl, line,
    merge_append, readable_within_iff identifier readable, awaitsName_iff hu, written, hl]

theorem names?_before_iff (awaits : AwaitsName upper) :
    names? (upper ++ '\n' :: (' ' :: ' ' :: x ++ ',' :: '\n' :: lower)) = some (old ++ [x]) ↔
      ∀ y ∈ written lower, y = x := by
  obtain ⟨A, w, z, Z, hu, hl, readable, rfl⟩ := exists_cells list
  rw [awaitsName_iff hu] at awaits
  have broken : ∀ c ∈ ['\n'], isListSpace c := List.all_eq_true.1 rfl
  have below : cells ('\n' :: lower) = z :: Z := (cells_spaces_append broken lower).trans hl
  have line : merge (A ++ [w]) ([x] :: z :: Z) = A ++ [x] :: z :: Z := by
    rw [merge_append, awaits]
    rfl
  rw [names?_eq_some_iff, written, cells_lines, cells_comma, cells_entryLine identifier, hu, below,
    List.singleton_append, line, readable_before_iff identifier readable awaits, written, hl]

theorem names?_after_iff (same : cells head = cells upper) (spaces : ∀ c ∈ breaks, isListSpace c) :
    names? (head ++ ',' :: (breaks ++ (' ' :: ' ' :: x ++ '\n' :: lower))) = some (old ++ [x]) ↔
      ¬ AwaitsName upper ∧ ∀ y ∈ written lower, y = x := by
  obtain ⟨A, w, z, Z, hu, hl, readable, rfl⟩ := exists_cells list
  have line : merge [[x]] (z :: Z) = (x :: z) :: Z := merge_append [] [x] z Z
  have regroup : A ++ [w] ++ (x :: z) :: Z = A ++ w :: (x :: z) :: Z := by simp
  rw [names?_eq_some_iff, written, cells_comma, cells_spaces_append spaces, cells_lines,
    cells_entryLine identifier, same, hu, hl, line, regroup,
    readable_after_iff identifier readable, awaitsName_iff hu, written, hl]

end Lines

end Names

end ComponentForge.Index

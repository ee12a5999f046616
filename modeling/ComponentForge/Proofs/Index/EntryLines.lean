import ComponentForge.Proofs.Index.ZoneRows

/-!
# Zones with one entry on each line

A zone that is kept by hand has its own indentation, its own line breaks and white space at the ends
of its lines. A line with one entry is hit by a search for the identifier of this entry and by no other,
and its comma is the only one it has.
-/

namespace ComponentForge.Index

open Text

/-- A character that an identifier may have. -/
def isIdentifierChar (c : Char) : Bool :=
  !isBlank c && c != ',' && c != '{' && c != '}'

/-- A nonempty text without white space, commas and braces. -/
structure IsIdentifier (x : Text) : Prop where
  ne_nil : x ≠ []
  chars : ∀ c ∈ x, isIdentifierChar c

/-- An entry on a line of its own, up to its comma. -/
structure EntryLine where
  indent : Text
  name : Text
  /-- What follows the entry and its comma. -/
  spaces : Text
  /-- The line ends with a carriage return and a line feed. -/
  returns : Bool
  indent_spaces : ∀ c ∈ indent, Pattern.isSpaceOrTab c
  identifier : IsIdentifier name
  spaces_spaces : ∀ c ∈ spaces, Pattern.isSpaceOrTab c

namespace IsIdentifier

variable {x : Text}

instance : Decidable (IsIdentifier x) :=
  decidable_of_iff (x ≠ [] ∧ x.all isIdentifierChar)
    ⟨fun h => ⟨h.1, List.all_eq_true.1 h.2⟩, fun h => ⟨h.ne_nil, List.all_eq_true.2 h.chars⟩⟩

theorem notMem (h : IsIdentifier x) {c : Char} (hc : isIdentifierChar c = false) : c ∉ x := by
  intro hmem
  rw [h.chars c hmem] at hc
  cases hc

theorem nonblank (h : IsIdentifier x) {c : Char} (hc : c ∈ x) : isBlank c = false := by
  have char := h.chars c hc
  simp only [isIdentifierChar, Bool.and_eq_true, Bool.not_eq_true'] at char
  exact char.1.1.1

theorem last_nonblank (h : IsIdentifier x) (lead : Text) :
    ∀ c ∈ (lead ++ x).getLast?, isBlank c = false := by
  intro c hc
  rw [List.getLast?_append_of_ne_nil _ h.ne_nil] at hc
  exact h.nonblank (List.mem_of_getLast? hc)

theorem braceless (h : IsIdentifier x) : Braceless x :=
  ⟨h.notMem (by decide), h.notMem (by decide)⟩

theorem oneLine (h : IsIdentifier x) : (Pattern.entry x).OneLine :=
  ⟨h.ne_nil, h.notMem (by decide)⟩

/-- The identifier that a line begins with, below its indentation, is determined. -/
theorem eq_of_append {x y lead lead' rest rest' : Text} (hx : IsIdentifier x) (hy : IsIdentifier y)
    (hlead : ∀ c ∈ lead, Pattern.isSpaceOrTab c) (hlead' : ∀ c ∈ lead', Pattern.isSpaceOrTab c)
    (hrest : ∀ c ∈ rest.head?, isIdentifierChar c = false)
    (hrest' : ∀ c ∈ rest'.head?, isIdentifierChar c = false)
    (same : lead ++ (x ++ rest) = lead' ++ (y ++ rest')) : x = y := by
  have skipped : ∀ {lead z rest : Text}, (∀ c ∈ lead, Pattern.isSpaceOrTab c) → IsIdentifier z →
      (lead ++ (z ++ rest)).dropWhile Pattern.isSpaceOrTab = z ++ rest := by
    intro lead z rest spaces hz
    rw [List.dropWhile_append_of_pos spaces]
    cases z with
    | nil => exact absurd rfl hz.ne_nil
    | cons c more =>
      have stays : ¬ Pattern.isSpaceOrTab c := fun space => by
        have nonblank := hz.nonblank (c := c) List.mem_cons_self
        rw [isBlank_of_isSpaceOrTab space] at nonblank
        cases nonblank
      rw [List.cons_append, List.dropWhile_cons_of_neg stays]
  have taken : ∀ {z rest : Text}, IsIdentifier z → (∀ c ∈ rest.head?, isIdentifierChar c = false) →
      (z ++ rest).takeWhile isIdentifierChar = z := by
    intro z rest hz stop
    rw [List.takeWhile_append_of_pos hz.chars]
    cases rest with
    | nil => simp
    | cons c more => simp [stop c (by simp)]
  have below := congrArg (List.dropWhile Pattern.isSpaceOrTab) same
  rw [skipped hlead hx, skipped hlead' hy] at below
  rw [← taken hx hrest, below, taken hy hrest']

end IsIdentifier

namespace EntryLine

variable (line : EntryLine)

def ending : Text :=
  if line.returns then ['\r', '\n'] else ['\n']

/-- The line as a row of the zone, without the comma. -/
def item : Item where
  body := line.indent ++ line.name
  ending := line.spaces ++ line.ending

theorem nil_spaces : ∀ c ∈ ([] : Text), Pattern.isSpaceOrTab c :=
  List.forall_mem_nil _

/-- The line without white space behind its entry. -/
def trimmed : EntryLine :=
  { line with spaces := [], spaces_spaces := nil_spaces }

/-- What is behind the entry of a row. -/
def rest (comma : Bool) : Text :=
  (if comma then [','] else []) ++ (line.spaces ++ if line.returns then ['\r'] else [])

variable {line : EntryLine} {comma : Bool} {x : Text}

theorem row_eq (line : EntryLine) (comma : Bool) :
    line.item.row comma = (line.indent ++ (line.name ++ line.rest comma)) ++ ['\n'] := by
  obtain ⟨indent, name, spaces, returns, _, _, _⟩ := line
  cases comma <;> cases returns <;> simp [item, Item.row, ending, rest]

theorem closing_rest (line : EntryLine) (comma : Bool) : Closing (line.rest comma)
    (if comma then [','] else []) line.spaces (if line.returns then ['\r'] else []) where
  whole := rfl
  comma := by cases comma <;> simp
  spaces := line.spaces_spaces
  returns := by cases line.returns <;> simp

theorem notMem_indent : '\n' ∉ line.indent := fun h => absurd (line.indent_spaces _ h) (by decide)

theorem notMem_spaces : '\n' ∉ line.spaces := fun h => absurd (line.spaces_spaces _ h) (by decide)

theorem notMem_rest : '\n' ∉ line.rest comma := by
  have none := line.notMem_spaces
  cases comma <;> cases h : line.returns <;> simp [rest, h, none]

theorem notMem_line : '\n' ∉ line.indent ++ (line.name ++ line.rest comma) := by
  simp [notMem_indent, notMem_rest, line.identifier.notMem (c := '\n') (by decide)]

theorem terminated_row : Terminated (line.item.row comma) :=
  ⟨_, notMem_line, line.row_eq comma⟩

/-- What closes an entry begins with nothing that could belong to the identifier. -/
theorem head_of_closing {rest comma spaces returns : Text} (h : Closing rest comma spaces returns) :
    ∀ c ∈ rest.head?, isIdentifierChar c = false := by
  obtain ⟨rfl, hcomma, hspaces, hreturns⟩ := h
  rcases hcomma with rfl | rfl
  · cases spaces with
    | nil => rcases hreturns with rfl | rfl <;> simp [isIdentifierChar, isBlank_carriageReturn]
    | cons d more =>
      have blank := isBlank_of_isSpaceOrTab (hspaces d List.mem_cons_self)
      simp [isIdentifierChar, blank]
  · simp [isIdentifierChar]

/-- A line is hit by a search for its own identifier only. -/
theorem hits_row_iff (hx : IsIdentifier x) :
    (Pattern.entry x).Hits (line.item.row comma) ↔ x = line.name := by
  rw [line.row_eq, hx.oneLine.hits_terminated]
  constructor
  · intro hit
    obtain ⟨lead, rest, same, spaces, closes⟩ := opensEntry_iff.1 hit
    have hrest : '\n' ∉ rest := fun h => notMem_line (by rw [same]; simp [h])
    obtain ⟨c, s, r, closing⟩ := closing_of_closesEntry hrest closes
    exact (IsIdentifier.eq_of_append line.identifier hx line.indent_spaces spaces
      (head_of_closing (line.closing_rest comma)) (head_of_closing closing) same).symm
  · rintro rfl
    exact opensEntry_iff.2 ⟨line.indent, line.rest comma, rfl, line.indent_spaces,
      closesEntry_of_closing (line.closing_rest comma)⟩

theorem mem_ending {c : Char} (hc : c ∈ line.ending) : c = '\n' ∨ c = '\r' := by
  cases h : line.returns with
  | false => exact Or.inl (by simpa [ending, h] using hc)
  | true => exact Or.symm (by simpa [ending, h] using hc)

theorem splitBreak_row (line : EntryLine) (comma : Bool) : (line.item.row comma).splitBreak =
    (line.indent ++ line.name ++ ((if comma then [','] else []) ++ line.spaces), line.ending) := by
  have regroup : line.item.row comma =
      (line.indent ++ line.name ++ ((if comma then [','] else []) ++ line.spaces)) ++ line.ending := by
    cases comma <;> simp [item, Item.row]
  rw [regroup]
  refine splitBreak_append (fun c hc => ?_) (fun c hc => ?_)
  · have plain : ∀ d, isIdentifierChar d = true ∨ d = ',' ∨ Pattern.isSpaceOrTab d →
        d ≠ '\n' ∧ d ≠ '\r' := by
      rintro d h
      constructor <;> rintro rfl <;> exact absurd h (by decide)
    apply plain
    by_cases empty : (if comma then [','] else []) ++ line.spaces = []
    · rw [empty, List.append_nil, List.getLast?_append_of_ne_nil _ line.identifier.ne_nil] at hc
      exact Or.inl (line.identifier.chars c (List.mem_of_getLast? hc))
    · rw [List.getLast?_append_of_ne_nil _ empty] at hc
      rcases List.mem_append.1 (List.mem_of_getLast? hc) with hc | hc
      · cases comma <;> simp_all
      · exact Or.inr (Or.inr (line.spaces_spaces c hc))
  · exact mem_ending hc

theorem isBlank_spaces : ∀ c ∈ line.spaces, isBlank c :=
  fun c hc => isBlank_of_isSpaceOrTab (line.spaces_spaces c hc)

theorem trimEnd_body (line : EntryLine) (comma : Bool) :
    (line.item.row comma).splitBreak.1.trimEnd =
      line.indent ++ line.name ++ (if comma then [','] else []) := by
  rw [splitBreak_row, ← List.append_assoc]
  refine trimEnd_append_of_last (fun c hc => ?_) isBlank_spaces
  cases comma with
  | true =>
    obtain rfl : ',' = c := by simpa using hc
    rfl
  | false => exact line.identifier.last_nonblank line.indent c (by simpa using hc)

theorem commaEnded_row (line : EntryLine) (comma : Bool) :
    commaEnded (line.item.row comma) = comma := by
  rw [commaEnded, trimEnd_body]
  cases comma with
  | true => exact endsWith_comma _
  | false =>
    have last : (line.indent ++ line.name).getLast? = line.name.getLast? :=
      List.getLast?_append_of_ne_nil _ line.identifier.ne_nil
    rw [← Bool.not_eq_true]
    intro ended
    have inside : ',' ∈ line.name := by
      apply List.mem_of_getLast?
      simpa [endsWith, last] using ended
    exact line.identifier.notMem (by decide) inside

theorem trimEnd_row (line : EntryLine) (comma : Bool) :
    (line.item.row comma).trimEnd.endsWith ',' = comma := by
  rw [← commaEnded_eq, line.commaEnded_row]

theorem withoutComma_row (line : EntryLine) :
    withoutComma (line.item.row true) = line.trimmed.item.row false := by
  rw [withoutComma, trimEnd_body, splitBreak_row, if_pos rfl, List.dropLast_concat]
  rfl

theorem row_true (line : EntryLine) : line.item.row true =
    (line.indent ++ line.name) ++ ((',' :: line.spaces) ++ line.ending) := by
  simp [item, Item.row]

@[simp]
theorem trimmed_name (line : EntryLine) : line.trimmed.name = line.name := rfl

theorem row_trimmed (line : EntryLine) : line.trimmed.item.row false =
    (line.indent ++ line.name) ++ line.ending := rfl

theorem notMem_row {c : Char} (space : Pattern.isSpaceOrTab c = false)
    (char : isIdentifierChar c = false) (other : c ≠ ',' ∧ c ≠ '\n' ∧ c ≠ '\r') :
    c ∉ line.item.row comma := by
  have indent : c ∉ line.indent := fun mem => by simp [line.indent_spaces c mem] at space
  have spaces : c ∉ line.spaces := fun mem => by simp [line.spaces_spaces c mem] at space
  have ending : c ∉ line.ending := fun mem => by
    rcases mem_ending mem with same | same
    · exact other.2.1 same
    · exact other.2.2 same
  have name := line.identifier.notMem char
  cases comma <;> simp [item, Item.row, indent, name, spaces, ending, other.1]

theorem braceless_row (line : EntryLine) (comma : Bool) : Braceless (line.item.row comma) :=
  ⟨notMem_row (by decide) (by decide) (by decide), notMem_row (by decide) (by decide) (by decide)⟩

/-- What a line loses together with its comma. -/
theorem braceless_spaces (line : EntryLine) : Braceless (',' :: line.spaces) := by
  have whole := line.braceless_row true
  rw [row_true] at whole
  exact ⟨fun mem => whole.1 (by simp only [List.mem_append, mem, true_or, or_true]),
    fun mem => whole.2 (by simp only [List.mem_append, mem, true_or, or_true])⟩

end EntryLine

/-- The rows of a zone that holds the lines; `trailing` tells whether the last has a comma. -/
def entryRows (trailing : Bool) (lines : List EntryLine) : List Text :=
  listing trailing (lines.map (·.item))

section Rows

variable {above : List Text} {lines after : List EntryLine} {trailing : Bool} {tail : Text}

theorem mem_entryRows {row : Text} (h : row ∈ entryRows trailing lines) :
    ∃ line ∈ lines, ∃ comma, row = line.item.row comma := by
  obtain ⟨item, hitem, comma, rfl⟩ := mem_listing h
  obtain ⟨line, hline, rfl⟩ := List.mem_map.1 hitem
  exact ⟨line, hline, comma, rfl⟩

theorem terminated_entryRows : ∀ row ∈ entryRows trailing lines, Terminated row := by
  intro row hrow
  obtain ⟨line, -, comma, rfl⟩ := mem_entryRows hrow
  exact line.terminated_row

theorem length_entryRows (trailing : Bool) (lines : List EntryLine) :
    (entryRows trailing lines).length = lines.length := by
  rw [entryRows, length_listing, List.length_map]

/-- Lines that are not the last ones have a comma each. -/
theorem entryRows_append (h : trailing = true ∨ after ≠ []) (before : List EntryLine) :
    entryRows trailing (before ++ after) =
      before.map (·.item.row true) ++ entryRows trailing after := by
  rw [entryRows, List.map_append, listing_append (h.imp_right (by simp)), entryRows, List.map_map]
  rfl

theorem entryRows_cons (trailing : Bool) (line : EntryLine) (after : List EntryLine) :
    entryRows trailing (line :: after) =
      line.item.row (trailing || !after.isEmpty) :: entryRows trailing after := by
  simp [entryRows, listing]

/-- Rows above the zone and lines with commas below them. -/
theorem terminated_lines (terminated : ∀ row ∈ above, Terminated row) :
    ∀ row ∈ above ++ lines.map (·.item.row true), Terminated row :=
  List.forall_mem_append.2 ⟨terminated, List.forall_mem_map.2 fun line _ => line.terminated_row⟩

/-- The rows around a line, which has a comma unless it is the last one. -/
theorem flatten_around_line (before : List EntryLine) (line : EntryLine) (after : List EntryLine) :
    (above ++ entryRows trailing (before ++ line :: after)).flatten ++ tail =
      (above ++ before.map (·.item.row true)).flatten ++
        (line.item.row (trailing || !after.isEmpty) ++
          ((entryRows trailing after).flatten ++ tail)) := by
  rw [entryRows_append (Or.inr (by simp)), entryRows_cons]
  simp

end Rows

end ComponentForge.Index

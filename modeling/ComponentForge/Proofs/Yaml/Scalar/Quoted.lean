import ComponentForge.Proofs.Yaml.White
import ComponentForge.Yaml.Scalar.Quoted
import Mathlib.Algebra.Group.Nat.Defs

/-!
# Reading quoted scalars

Between quotes a text is written in stretches without white space, where a character may be doubled
or escaped, and gaps of spaces or of line breaks between them. Both ways of quoting are read by the
same loop over the stretches.
-/

namespace ComponentForge.Yaml

namespace Quoted

def quote (single : Bool) : Char :=
  if single then '\'' else '"'

/-- What stands between the quotes for a character that is not taken for white space. -/
inductive Piece : Bool → Char → Text → Prop
  | plain {single : Bool} {c : Char} : isWhite c = false → c ≠ quote single →
    (single = false → c ≠ '\\') → Piece single c [c]
  | doubled : Piece true '\'' ['\'', '\'']
  | escaped {c letter : Char} {more : Text} : isBreak letter = false →
    (∀ rest, escape? ('\\' :: letter :: (more ++ rest)) = some (c, 2 + more.length)) →
    Piece false c ('\\' :: letter :: more)

/-- The pieces of a stretch. -/
inductive Stretch (single : Bool) : Text → Text → Prop
  | nil : Stretch single [] []
  | cons {c : Char} {piece word printed : Text} : Piece single c piece →
    Stretch single word printed → Stretch single (c :: word) (piece ++ printed)

/-- The text is printed like this between quotes. After line breaks the next line is indented. -/
inductive Encodes (single : Bool) : Text → Text → Prop
  | stretch {word printed : Text} : Stretch single word printed → Encodes single word printed
  | spaces {word piece text printed : Text} (n : Nat) : Stretch single word piece →
    Encodes single text printed → Unspaced printed →
    Encodes single (word ++ (spaces (n + 1) ++ text)) (piece ++ (spaces (n + 1) ++ printed))
  | breaks {word piece bs text printed : Text} {b : Char} (n : Nat) : Stretch single word piece →
    (∀ d ∈ b :: bs, IsKept d) → b ≠ '\n' → Encodes single text printed → Unspaced printed →
    Encodes single (word ++ (b :: bs ++ text)) (piece ++ (b :: bs ++ spaces (n + 1) ++ printed))

variable {single : Bool} {column column' fuel : Nat} {word piece text printed tail rest : Text} {c : Cursor}
  {x : Char}

/-- Where a stretch ends: at white space, or at a quote that is not doubled. -/
inductive Stops (single : Bool) : Text → Prop
  | white {x : Char} {rest : Text} : isWhite x → Stops single (x :: rest)
  | quote {x : Char} {rest : Text} : x ≠ '\'' → Stops single (quote single :: x :: rest)

theorem stretch?_of_stops (acc : Text) (fuel : Nat) (at_end : c.At column tail)
    (stops : Stops single tail) : stretch? single fuel acc c = some (acc, .none, c) := by
  cases fuel with
  | zero => rfl
  | succ fuel =>
    rw [stretch?, at_end.rest]
    cases stops with
    | white white => simp [white]
    | @quote x rest other =>
      cases single with
      | true => simp [quote, other, show isWhite '\'' = false by decide]
      | false => simp [quote, show isWhite '"' = false by decide]

/-- One piece of a stretch. -/
theorem stretch?_piece {y : Char} (acc : Text) (h : Piece single y piece)
    (at_piece : c.At column (piece ++ tail)) :
    stretch? single (fuel + 1) acc c = stretch? single fuel (acc ++ [y]) (c.skip piece.length) := by
  rw [stretch?, at_piece.rest]
  cases h with
  | plain not_white not_quote not_escape =>
    cases single with
    | true =>
      have other : (y == '\'') = false := by simpa [quote] using not_quote
      simp [not_white, other]
    | false =>
      have other : (y == '"') = false := by simpa [quote] using not_quote
      have other' : (y == '\\') = false := by simpa using not_escape rfl
      simp [not_white, other, other']
  | doubled =>
    have not_white : isWhite '\'' = false := by decide
    simp [not_white]
  | @escaped _ letter more not_break reads =>
    have at_letter : (c.skip 1).At (column + 1) (letter :: (more ++ tail)) := at_piece.skip_one
    have no_break := at_letter.takeBreak?_none (by simpa using not_break)
    have not_white : isWhite '\\' = false := by decide
    have length : 2 + more.length = ('\\' :: letter :: more).length := by simp; omega
    simp [not_white, no_break, reads tail, length]

theorem stretch?_eq (acc : Text) (h : Stretch single word printed)
    (at_start : c.At column (printed ++ tail)) (stops : Stops single tail)
    (enough : printed.length < fuel) :
    ∃ c', stretch? single fuel acc c = some (acc ++ word, .none, c') ∧
      c'.At (column + printed.length) tail := by
  induction h generalizing acc c column fuel with
  | nil => exact ⟨c, by rw [stretch?_of_stops acc fuel at_start stops, List.append_nil], at_start⟩
  | @cons y piece word printed first _ ih =>
    obtain ⟨fuel, rfl⟩ : ∃ less, fuel = less + 1 := ⟨fuel - 1, by omega⟩
    rw [List.append_assoc] at at_start
    have pos : 0 < piece.length := by cases first <;> simp
    have less : printed.length < fuel := by
      rw [List.length_append] at enough
      omega
    obtain ⟨c', reads, at_end⟩ := ih (acc ++ [y]) at_start.skip less
    refine ⟨c', ?_, ?_⟩
    · rw [stretch?_piece acc first at_start, reads, List.append_assoc]
      rfl
    · rwa [List.length_append, ← Nat.add_assoc]

theorem Piece.unspaced {y : Char} (h : Piece single y piece) (tail : Text) :
    Unspaced (piece ++ tail) := by
  cases h with
  | plain not_white _ _ => exact unspaced_cons.2 not_white
  | doubled => exact unspaced_cons.2 (by decide)
  | escaped _ _ => exact unspaced_cons.2 (by decide)

theorem isWhite_quote (single : Bool) : isWhite (quote single) = false := by
  cases single <;> decide

/-- A stretch and the gap after it. -/
theorem readFrom_stretch {gap : Gap} (acc : Text) (h : Stretch single word printed)
    (at_text : c.At column (printed ++ x :: rest)) (hne : column ≠ 0) (white : isWhite x)
    (gap_read : ∀ c', c'.At (column + printed.length) (x :: rest) →
      ∃ c'', Gap.read? 0 .none c' = some (gap, c'') ∧ c''.At column' tail) :
    ∃ c'', readFrom single (fuel + 1) acc c = readFrom single fuel (acc ++ word ++ gap.fold) c'' ∧
      c''.At column' tail := by
  have enough : printed.length < c.rest.length + 1 := by
    rw [at_text.rest, List.length_append]
    omega
  obtain ⟨c', reads, at_gap⟩ := stretch?_eq acc h at_text (.white white) enough
  obtain ⟨c'', found, at_next⟩ := gap_read c' at_gap
  refine ⟨c'', ?_, at_next⟩
  have other : x ≠ (if single then '\'' else '"') := by
    rintro rfl
    have not_white : isWhite (if single then '\'' else '"') = false := isWhite_quote single
    rw [not_white] at white
    cases white
  rw [readFrom]
  simp [at_text.atDocumentMark hne, reads, at_gap.head?, other, found]

/-- The loop up to the closing quote, one stretch and one gap at a time. -/
theorem readFrom_encodes (acc : Text) (h : Encodes single text printed)
    (at_text : c.At column (printed ++ quote single :: x :: rest)) (hne : column ≠ 0) (other : x ≠ '\'')
    (enough : printed.length < fuel) :
    ∃ c' column', readFrom single fuel acc c = some (acc ++ text, c') ∧ c'.At column' (x :: rest) := by
  induction h generalizing acc c column fuel with
  | @stretch word printed word_printed =>
    obtain ⟨fuel, rfl⟩ : ∃ less, fuel = less + 1 := ⟨fuel - 1, by omega⟩
    have enough' : printed.length < c.rest.length + 1 := by
      rw [at_text.rest, List.length_append]
      omega
    obtain ⟨c', reads, at_quote⟩ := stretch?_eq acc word_printed at_text (.quote other) enough'
    refine ⟨c'.skip 1, _, ?_, at_quote.skip_one⟩
    rw [readFrom]
    simp [at_text.atDocumentMark hne, reads, at_quote.head?, quote]
  | @spaces word piece text printed n first _ unspaced ih =>
    obtain ⟨fuel, rfl⟩ : ∃ less, fuel = less + 1 := ⟨fuel - 1, by omega⟩
    have at_word : c.At column
        (piece ++ ' ' :: (spaces n ++ (printed ++ quote single :: x :: rest))) := by
      exact ⟨at_text.column, by rw [at_text.rest]; simp [spaces_succ]⟩
    obtain ⟨c', reads, at_next⟩ := readFrom_stretch acc first at_word hne (by decide)
      fun c' at_gap => Gap.read?_spaces 0 [] (n + 1) at_gap
        (unspaced.append (unspaced_cons.2 (isWhite_quote single)))
    have less : printed.length < fuel := by
      simp only [List.length_append, spaces_succ, List.length_cons] at enough
      omega
    obtain ⟨c'', column', reads', at_end⟩ := ih _ at_next (by omega) less
    refine ⟨c'', column', ?_, at_end⟩
    rw [reads, reads']
    simp [Gap.fold]
  | @breaks word piece bs text printed b n first kept not_feed _ unspaced ih =>
    obtain ⟨fuel, rfl⟩ : ∃ less, fuel = less + 1 := ⟨fuel - 1, by omega⟩
    have at_word : c.At column
        (piece ++ b :: (bs ++ spaces (n + 1) ++ (printed ++ quote single :: x :: rest))) := by
      exact ⟨at_text.column, by rw [at_text.rest]; simp⟩
    have white : isWhite b := by
      rw [isWhite, (kept b List.mem_cons_self).1, Bool.or_true]
    obtain ⟨c', reads, at_next⟩ := readFrom_stretch acc first at_word hne white
      fun c' at_gap => Gap.read?_breaks 0 [] kept at_gap
        (unspaced.append (unspaced_cons.2 (isWhite_quote single)))
    have less : printed.length < fuel := by
      simp only [List.length_append, List.length_cons] at enough
      omega
    obtain ⟨c'', column', reads', at_end⟩ := ih _ at_next (by omega) less
    refine ⟨c'', column', ?_, at_end⟩
    have fold : (Gap.breaks (some b) bs).fold = b :: bs := by simp [Gap.fold, not_feed]
    rw [reads, reads', fold]
    simp

/-- A quoted scalar is read up to its closing quote. -/
theorem read?_encodes (h : Encodes single text printed)
    (at_text : c.At column (quote single :: (printed ++ quote single :: x :: rest)))
    (other : x ≠ '\'') :
    ∃ c' column', read? single c = some (text, c') ∧ c'.At column' (x :: rest) := by
  have enough : printed.length < c.rest.length + 1 := by
    simp [at_text.rest]
    omega
  exact readFrom_encodes [] h at_text.skip_one (Nat.succ_ne_zero column) other enough

/-! ## Single quotes -/

/-- The text with its quotes doubled. -/
def doubled (text : Text) : Text :=
  text.flatMap fun c => if c = '\'' then ['\'', '\''] else [c]

/-- The indentation of a closing quote that stands on a line of its own. -/
def closing (indent : Nat) (text : Text) : Text :=
  match text.getLast? with
  | some c => if isBreak c then spaces indent else []
  | none => []

/-- What is printed between single quotes. -/
def inner (indent : Nat) (text : Text) : Text :=
  indented indent false (doubled text) ++ closing indent text

theorem singleQuoted_eq (indent : Nat) (text : Text) :
    singleQuoted indent text = quote true :: (inner indent text ++ [quote true]) := by
  rw [singleQuoted, inner, closing, doubled]
  cases text.getLast? <;> simp [quote]

theorem doubled_append (a b : Text) : doubled (a ++ b) = doubled a ++ doubled b :=
  List.flatMap_append

theorem doubled_of_no_quote (h : '\'' ∉ text) : doubled text = text := by
  induction text with
  | nil => rfl
  | cons c text ih =>
    have other : c ≠ '\'' := fun same => h (same ▸ List.mem_cons_self)
    have others := ih fun mem => h (List.mem_cons_of_mem c mem)
    rw [doubled, List.flatMap_cons, if_neg other, ← doubled, others]
    rfl

theorem mem_of_mem_doubled {c : Char} (h : c ∈ doubled text) : c ∈ text := by
  obtain ⟨d, hd, hc⟩ := List.mem_flatMap.1 h
  split at hc
  · rename_i same
    have quote : c = '\'' := by simpa using hc
    rwa [quote, ← same]
  · rwa [List.mem_singleton.1 hc]

theorem doubled_cons (c : Char) (rest : Text) : ∃ more, doubled (c :: rest) = c :: more := by
  rw [doubled, List.flatMap_cons]
  split
  · rename_i same
    exact ⟨_, by rw [same]; rfl⟩
  · exact ⟨_, rfl⟩

theorem closing_append {a b : Text} (indent : Nat) (hne : b ≠ []) :
    closing indent (a ++ b) = closing indent b := by
  obtain ⟨front, last, rfl⟩ := List.eq_nil_or_concat b |>.resolve_left hne
  simp [closing]

theorem closing_of_no_break (indent : Nat) (h : ∀ c ∈ text.getLast?, isBreak c = false) :
    closing indent text = [] := by
  rw [closing]
  cases last : text.getLast? with
  | none => rfl
  | some c => simp [h c last]

theorem stretch_doubled (h : ∀ c ∈ word, isWhite c = false) : Stretch true word (doubled word) := by
  induction word with
  | nil => exact .nil
  | cons c word ih =>
    have rest := ih fun d hd => h d (List.mem_cons_of_mem c hd)
    rw [doubled, List.flatMap_cons]
    by_cases same : c = '\''
    · subst same
      exact .cons .doubled rest
    · rw [if_neg same]
      exact .cons (.plain (h c List.mem_cons_self) same (by simp)) rest

/-- What single quotes can hold on lines of their own: no line feed, and no space beside a break. -/
structure Quotable (text : Text) : Prop where
  printable : ∀ c ∈ text, isPrintable c
  no_feed : '\n' ∉ text
  no_break_after : ∀ b, [' ', b] <:+: text → isBreak b = false
  no_space_after : ∀ a, isBreak a → ¬ [a, ' '] <:+: text

theorem Quotable.of_append {before : Text} (h : Quotable (before ++ text)) : Quotable text := by
  have inside : text <:+: before ++ text := (List.suffix_append before text).isInfix
  exact ⟨fun c hc => h.printable c (List.mem_append_right _ hc),
    fun hc => h.no_feed (List.mem_append_right _ hc), fun b hb => h.no_break_after b (hb.trans inside),
    fun a ha space => h.no_space_after a ha (space.trans inside)⟩

theorem Quotable.eq_space_or_isKept (h : Quotable text) {c : Char} (hc : c ∈ text) (white : isWhite c) :
    c = ' ' ∨ IsKept c ∧ c ≠ '\n' := by
  rcases isBlankOrKept_of_isWhite white (h.printable c hc) with space | kept
  · exact Or.inl space
  · exact Or.inr ⟨kept, fun feed => h.no_feed (feed ▸ hc)⟩

/-- No line ends with a space, so there is a word after spaces. -/
theorem Quotable.unspaced_of_space {before : Text} (h : Quotable (before ++ ' ' :: text))
    (stops : ∀ c ∈ text.head?, c ≠ ' ') : Unspaced text := by
  intro c hc
  by_cases white : isWhite c
  · obtain ⟨more, rfl⟩ := List.head?_eq_some_iff.1 hc
    rcases h.eq_space_or_isKept (c := c) (by simp) white with space | ⟨kept, -⟩
    · exact absurd space (stops c rfl)
    · have no_break := h.no_break_after c ⟨before, more, by simp⟩
      rw [kept.1] at no_break
      cases no_break
  · simpa using white

/-- No line starts with a space, so there is a word after breaks. -/
theorem Quotable.unspaced_of_break {before : Text} {b : Char} (h : Quotable (before ++ b :: text))
    (is_break : isBreak b) (stops : ∀ c ∈ text.head?, isBreak c = false) : Unspaced text := by
  intro c hc
  by_cases white : isWhite c
  · obtain ⟨more, rfl⟩ := List.head?_eq_some_iff.1 hc
    rcases h.eq_space_or_isKept (c := c) (by simp) white with rfl | ⟨kept, -⟩
    · exact absurd ⟨before, more, by simp⟩ (h.no_space_after b is_break)
    · have no_break := stops c rfl
      rw [kept.1] at no_break
      cases no_break
  · simpa using white

section Inner

variable {n : Nat}

theorem inner_word (solid : ∀ c ∈ word, isWhite c = false) (hne : rest ≠ []) :
    inner n (word ++ rest) = doubled word ++ inner n rest := by
  have no_break : ∀ c ∈ doubled word, isBreak c = false := fun c hc =>
    isBreak_eq_false_of_isWhite_eq_false (solid c (mem_of_mem_doubled hc))
  rw [inner, inner, doubled_append, indented_line no_break, closing_append n hne, List.append_assoc]

theorem inner_solid (solid : ∀ c ∈ word, isWhite c = false) : inner n word = doubled word := by
  have no_break : ∀ c ∈ doubled word, isBreak c = false := fun c hc =>
    isBreak_eq_false_of_isWhite_eq_false (solid c (mem_of_mem_doubled hc))
  have whole := indented_line (n := n) no_break []
  rw [List.append_nil] at whole
  have last : ∀ c ∈ word.getLast?, isBreak c = false := fun c hc =>
    isBreak_eq_false_of_isWhite_eq_false (solid c (List.mem_of_mem_getLast? hc))
  rw [inner, whole, closing_of_no_break n last]
  simp [indented]

theorem inner_spaces (k : Nat) (text : Text) : inner n (spaces k ++ text) = spaces k ++ inner n text := by
  have no_quote : '\'' ∉ spaces k := fun mem => absurd (mem_spaces mem) (by decide)
  have no_break : ∀ c ∈ spaces k, isBreak c = false := fun c hc => by
    rw [mem_spaces hc]
    rfl
  have ends : closing n (spaces k ++ text) = closing n text := by
    by_cases hne : text = []
    · subst hne
      rw [List.append_nil, closing_of_no_break n fun c hc => no_break c (List.mem_of_mem_getLast? hc)]
      rfl
    · exact closing_append n hne
  rw [inner, inner, doubled_append, doubled_of_no_quote no_quote, indented_line no_break, ends,
    List.append_assoc]

theorem inner_breaks {bs : Text} (hne : bs ≠ []) (breaks : ∀ b ∈ bs, isBreak b)
    (unspaced : Unspaced text) : inner n (bs ++ text) = bs ++ spaces n ++ inner n text := by
  have no_quote : '\'' ∉ bs := fun mem => absurd (breaks _ mem) (by decide)
  rw [inner, inner, doubled_append, doubled_of_no_quote no_quote, indented_breaks hne breaks]
  cases text with
  | nil =>
    obtain ⟨front, last, rfl⟩ := List.eq_nil_or_concat bs |>.resolve_left hne
    have isBreak_last := breaks last (by simp)
    simp [closing, isBreak_last, doubled, indented]
  | cons c rest =>
    obtain ⟨more, start⟩ := doubled_cons c rest
    have no_break : isBreak c = false := unspaced.no_break c rfl
    rw [start, indented_fresh no_break, closing_append n (List.cons_ne_nil c rest)]
    simp

theorem inner_unspaced (unspaced : Unspaced text) : Unspaced (inner n text) := by
  cases text with
  | nil => exact unspaced_nil
  | cons c rest =>
    obtain ⟨more, start⟩ := doubled_cons c rest
    have no_break : isBreak c = false := unspaced.no_break c rfl
    rw [inner, start, indented, no_break]
    exact unspaced_cons.2 (unspaced_cons.1 unspaced)

end Inner

theorem encodes_inner (n : Nat) (h : Quotable text) : Encodes true text (inner (n + 1) text) := by
  obtain ⟨size, bound⟩ : ∃ size, text.length ≤ size := ⟨_, Nat.le_refl _⟩
  induction size generalizing text with
  | zero =>
    obtain rfl := List.length_eq_zero_iff.1 (Nat.le_zero.1 bound)
    exact .stretch .nil
  | succ size ih =>
    -- a stretch, the spaces or the breaks after it, and the rest, which is shorter
    obtain ⟨word, rest, rfl, solid, stops⟩ := exists_run (!isWhite ·) text
    simp only [Bool.not_eq_true', Bool.not_eq_false'] at solid stops
    have first := stretch_doubled solid
    by_cases rest_ne : rest = []
    · subst rest_ne
      rw [List.append_nil, inner_solid solid]
      exact .stretch first
    rw [inner_word solid rest_ne]
    obtain ⟨x, rest, rfl⟩ := List.exists_cons_of_ne_nil rest_ne
    rcases h.eq_space_or_isKept (c := x) (by simp) (stops x rfl) with rfl | ⟨kept, not_feed⟩
    · obtain ⟨k, text, rfl, stops'⟩ := exists_spaces rest
      have whole : word ++ ' ' :: (spaces k ++ text) = (word ++ spaces k) ++ ' ' :: text := by
        rw [← List.cons_append, ← spaces_succ, spaces_concat]
        simp
      rw [whole] at h
      have unspaced := h.unspaced_of_space stops'
      have less : text.length ≤ size := by
        simp only [List.length_append, List.length_cons] at bound
        omega
      rw [← List.singleton_append, ← List.append_assoc] at h
      rw [← List.cons_append, ← spaces_succ, inner_spaces]
      exact .spaces k first (ih h.of_append less) (inner_unspaced unspaced)
    · obtain ⟨bs, text, rfl, breaks, stops'⟩ := exists_run isBreak rest
      have all_break : ∀ d ∈ x :: bs, isBreak d := List.forall_mem_cons.2 ⟨kept.1, breaks⟩
      have all_kept : ∀ d ∈ x :: bs, IsKept d := fun d hd =>
        ⟨all_break d hd, h.printable d (by simp only [List.mem_append, List.mem_cons] at hd ⊢; tauto)⟩
      obtain ⟨front, last, ends⟩ := List.eq_nil_or_concat (x :: bs) |>.resolve_left (by simp)
      have whole : word ++ x :: (bs ++ text) = (word ++ front) ++ last :: text := by
        rw [← List.cons_append, ends]
        simp
      rw [whole] at h
      have unspaced := h.unspaced_of_break (all_break last (by simp [ends])) stops'
      have less : text.length ≤ size := by
        simp only [List.length_append, List.length_cons] at bound
        omega
      rw [← List.singleton_append, ← List.append_assoc] at h
      rw [← List.cons_append, inner_breaks (List.cons_ne_nil x bs) all_break unspaced]
      exact .breaks n first all_kept not_feed (ih h.of_append less) (inner_unspaced unspaced)

theorem quotable_of_allowsSingleQuotes (h : allowsSingleQuotes text) (no_feed : '\n' ∉ text) :
    Quotable text := by
  simp only [allowsSingleQuotes, Bool.and_eq_true, Bool.not_eq_true', List.all_eq_true,
    hasPair_eq_false_iff] at h
  obtain ⟨⟨printable, before⟩, after⟩ := h
  refine ⟨printable, no_feed, fun b inside => before ' ' b inside (by decide), ?_⟩
  intro a isBreak_a inside
  exact absurd (after a ' ' inside isBreak_a) (by decide)

/-- What single quotes are printed around is read back. -/
theorem read?_singleQuoted (n : Nat) (h : allowsSingleQuotes text) (no_feed : '\n' ∉ text)
    (at_text : c.At column (singleQuoted (n + 1) text ++ x :: rest)) (other : x ≠ '\'') :
    ∃ c' column', read? true c = some (text, c') ∧ c'.At column' (x :: rest) := by
  have at_quote : c.At column (quote true :: (inner (n + 1) text ++ quote true :: x :: rest)) := by
    rw [singleQuoted_eq] at at_text
    simpa using at_text
  exact read?_encodes (encodes_inner n (quotable_of_allowsSingleQuotes h no_feed)) at_quote other

/-! ## Double quotes -/

section Escapes

theorem length_hex (width n : Nat) : (hex width n).length = width := by
  induction width generalizing n with
  | zero => rfl
  | succ width ih => rw [hex, List.length_append, ih]; rfl

theorem hexValue?_hexDigit : ∀ d : Fin 16, hexValue? (hexDigit d) = some d.val := by
  decide +kernel

theorem number?_hex {width n : Nat} (h : n < 16 ^ width) : number? (hex width n) = some n := by
  induction width generalizing n with
  | zero =>
    obtain rfl : n = 0 := by simpa using h
    rfl
  | succ width ih =>
    have front := ih (n := n / 16) (by rw [Nat.pow_succ] at h; omega)
    have last := hexValue?_hexDigit ⟨n % 16, Nat.mod_lt n (by decide)⟩
    rw [number?] at front ⊢
    rw [hex, List.foldlM_append, front]
    simp only [Option.bind_eq_bind, Option.bind_some, List.foldlM_cons, List.foldlM_nil] at last ⊢
    rw [last]
    simp
    omega

/-- The digits of a code point stand for its character. -/
theorem escape?_hex {letter : Char} {count : Nat} (c : Char) (digits : digitCount? letter = some count)
    (no_letter : escapes.lookup letter = none) (h : c.toNat < 16 ^ count) (rest : Text) :
    escape? ('\\' :: letter :: (hex count c.toNat ++ rest)) = some (c, 2 + count) := by
  have enough : count ≤ (hex count c.toNat).length + rest.length := by
    rw [length_hex]
    omega
  have front : (hex count c.toNat ++ rest).take count = hex count c.toNat :=
    List.take_left' (length_hex count c.toNat)
  have valid : (0xD800 ≤ c.toNat → 0xDFFF < c.toNat) ∧ c.toNat ≤ 0x10FFFF := by
    have := c.valid
    simp only [UInt32.isValidChar, Nat.isValidChar] at this
    simp only [Char.toNat]
    omega
  rw [escape?]
  simp only [no_letter, digits, Option.bind_eq_bind, Option.bind_some, List.length_append, front,
    number?_hex h]
  simp [enough, valid.2]
  exact valid.1

theorem forall_of_lookup {α β : Type} [BEq α] [LawfulBEq α] {table : List (α × β)}
    {P : α → β → Prop} (h : ∀ entry ∈ table, P entry.1 entry.2) {k : α} {v : β}
    (found : table.lookup k = some v) : P k v := by
  obtain ⟨before, after, whole, -⟩ := List.lookup_eq_some_iff.1 found
  exact h (k, v) (by rw [whole]; simp)

/-- A letter that escapes a character is read as that character. -/
theorem lookup_escapeLetter {n : Nat} {letter : Char} (h : escapeLetter? n = some letter) :
    isBreak letter = false ∧ escapes.lookup letter = some n := by
  rw [escapeLetter?] at h
  exact forall_of_lookup (P := fun n letter => isBreak letter = false ∧ escapes.lookup letter = some n)
    (by decide +kernel) h

theorem piece_escape (c : Char) : Piece false c (escape c) := by
  rw [escape]
  cases found : escapeLetter? c.toNat with
  | some letter =>
    obtain ⟨not_break, reads⟩ := lookup_escapeLetter found
    refine .escaped not_break fun rest => ?_
    rw [escape?]
    simp [reads, Char.ofNat_toNat]
  | none =>
    have small : c.toNat < 16 ^ 8 := by
      have := c.valid
      simp only [UInt32.isValidChar, Nat.isValidChar] at this
      simp only [Char.toNat]
      omega
    have written : ∀ letter count, digitCount? letter = some count → escapes.lookup letter = none →
        isBreak letter = false → c.toNat < 16 ^ count →
        Piece false c ('\\' :: letter :: hex count c.toNat) := by
      intro letter count digits no_letter not_break fits
      refine .escaped not_break fun rest => ?_
      rw [escape?_hex c digits no_letter fits, length_hex]
    dsimp only
    split
    · exact written 'x' 2 rfl rfl (by decide) (by omega)
    · split
      · exact written 'u' 4 rfl rfl (by decide) (by omega)
      · exact written 'U' 8 rfl rfl (by decide) small

end Escapes

/-- A character between double quotes. -/
def shown (c : Char) : Text :=
  if isPrintable c && !isBreak c && c != '"' && c != '\\' then [c] else escape c

def escaped (text : Text) : Text :=
  text.flatMap shown

theorem doubleQuoted_eq (text : Text) :
    doubleQuoted text = quote false :: (escaped text ++ [quote false]) := rfl

theorem escaped_append (a b : Text) : escaped (a ++ b) = escaped a ++ escaped b :=
  List.flatMap_append

theorem piece_shown {c : Char} (h : c ≠ ' ') : Piece false c (shown c) := by
  rw [shown]
  split
  · rename_i plain
    simp only [Bool.and_eq_true, Bool.not_eq_true', bne_iff_ne, ne_eq] at plain
    obtain ⟨⟨⟨printable, not_break⟩, not_quote⟩, not_escape⟩ := plain
    refine .plain ?_ not_quote fun _ => not_escape
    by_cases white : isWhite c
    · rcases isBlankOrKept_of_isWhite white printable with space | kept
      · exact absurd space h
      · rw [kept.1] at not_break
        cases not_break
    · simpa using white
  · exact piece_escape c

theorem stretch_escaped (h : ∀ c ∈ word, c ≠ ' ') : Stretch false word (escaped word) := by
  induction word with
  | nil => exact .nil
  | cons c word ih =>
    exact .cons (piece_shown (h c List.mem_cons_self)) (ih fun d hd => h d (List.mem_cons_of_mem c hd))

theorem escaped_spaces (n : Nat) : escaped (spaces n) = spaces n := by
  induction n with
  | zero => rfl
  | succ n ih =>
    have space : escaped [' '] = [' '] := by decide
    rw [spaces_succ, ← List.singleton_append, escaped_append, space, ih]

theorem encodes_escaped (text : Text) : Encodes false text (escaped text) := by
  obtain ⟨size, bound⟩ : ∃ size, text.length ≤ size := ⟨_, Nat.le_refl _⟩
  induction size generalizing text with
  | zero =>
    obtain rfl := List.length_eq_zero_iff.1 (Nat.le_zero.1 bound)
    exact .stretch .nil
  | succ size ih =>
    obtain ⟨word, rest, rfl, solid, stops⟩ := exists_run (· != ' ') text
    have first : Stretch false word (escaped word) :=
      stretch_escaped fun c hc => by simpa using solid c hc
    by_cases rest_ne : rest = []
    · subst rest_ne
      rw [List.append_nil]
      exact .stretch first
    obtain ⟨x, rest, rfl⟩ := List.exists_cons_of_ne_nil rest_ne
    obtain rfl : x = ' ' := by simpa using stops x rfl
    obtain ⟨k, text, rfl, stops'⟩ := exists_spaces rest
    have less : text.length ≤ size := by
      simp only [List.length_append, List.length_cons] at bound
      omega
    have unspaced : Unspaced (escaped text) := by
      cases text with
      | nil => exact unspaced_nil
      | cons c text =>
        exact (piece_shown (stops' c rfl)).unspaced (escaped text)
    rw [← List.cons_append, ← spaces_succ, escaped_append, escaped_append, escaped_spaces]
    exact .spaces k first (ih text less) unspaced

theorem read?_doubleQuoted (at_text : c.At column (doubleQuoted text ++ x :: rest)) (other : x ≠ '\'') :
    ∃ c' column', read? false c = some (text, c') ∧ c'.At column' (x :: rest) := by
  have at_quote : c.At column (quote false :: (escaped text ++ quote false :: x :: rest)) := by
    rw [doubleQuoted_eq] at at_text
    simpa using at_text
  exact read?_encodes (encodes_escaped text) at_quote other

end Quoted

end ComponentForge.Yaml

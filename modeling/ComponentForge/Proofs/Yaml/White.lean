import ComponentForge.Yaml.Printer
import ComponentForge.Yaml.Scalar.Gap
import Mathlib.Data.List.Basic

/-!
# Passing white space

Where a cursor stands after it passed characters of a line, line breaks and spaces. Printed
documents break lines only at line feeds and at the two separators of Unicode, which scalars keep as
they are, and they have no tabs.
-/

namespace ComponentForge.Yaml

/-- A line break that is printed and read as it is. -/
def IsKept (b : Char) : Prop :=
  isBreak b ∧ isPrintable b

/-- A space or a line break that is printed as it is. -/
def IsBlankOrKept (c : Char) : Prop :=
  c = ' ' ∨ IsKept c

/-- The text is empty or begins with what is no white space. -/
def Unspaced (text : Text) : Prop :=
  ∀ c ∈ text.head?, isWhite c = false

theorem mem_spaces {n : Nat} {c : Char} (h : c ∈ spaces n) : c = ' ' :=
  List.eq_of_mem_replicate h

theorem length_spaces (n : Nat) : (spaces n).length = n :=
  List.length_replicate

theorem spaces_succ (n : Nat) : spaces (n + 1) = ' ' :: spaces n :=
  List.replicate_succ

section Characters

variable {c : Char}

theorem IsKept.ne_return (h : IsKept c) : c ≠ '\r' := by
  rintro rfl
  exact absurd h.2 (by decide)

theorem IsKept.ne_nextLine (h : IsKept c) : c.toNat ≠ 0x85 := by
  intro code
  have printable := h.2
  simp [isPrintable, code] at printable

theorem IsKept.ne_space (h : IsKept c) : c ≠ ' ' := by
  rintro rfl
  exact absurd h.1 (by decide)

theorem IsKept.ne_tab (h : IsKept c) : c ≠ '\t' := by
  rintro rfl
  exact absurd h.2 (by decide)

theorem isKept_lineFeed : IsKept '\n' :=
  ⟨by decide, by decide⟩

theorem isBreak_of_isWhite (h : isWhite c) (space : c ≠ ' ') (tab : c ≠ '\t') : isBreak c := by
  simpa [isWhite, isSpaceOrTab, space, tab] using h

theorem ne_tab_of_isPrintable (h : isPrintable c) : c ≠ '\t' := by
  rintro rfl
  exact absurd h (by decide)

/-- Printable white space is a space or a break that is kept. -/
theorem isBlankOrKept_of_isWhite (h : isWhite c) (printable : isPrintable c) : IsBlankOrKept c := by
  by_cases space : c = ' '
  · exact Or.inl space
  · exact Or.inr ⟨isBreak_of_isWhite h space (ne_tab_of_isPrintable printable), printable⟩

theorem isBreak_eq_false_of_isWhite_eq_false (h : isWhite c = false) : isBreak c = false := by
  rw [isWhite, Bool.or_eq_false_iff] at h
  exact h.2

theorem isSpaceOrTab_eq_false_of_isWhite_eq_false (h : isWhite c = false) : isSpaceOrTab c = false := by
  rw [isWhite, Bool.or_eq_false_iff] at h
  exact h.1

theorem ne_space_of_isWhite_eq_false (h : isWhite c = false) : c ≠ ' ' := by
  rintro rfl
  exact absurd h (by decide)

end Characters

theorem unspaced_cons {c : Char} {rest : Text} : Unspaced (c :: rest) ↔ isWhite c = false := by
  simp [Unspaced]

theorem unspaced_nil : Unspaced [] := by
  simp [Unspaced]

theorem Unspaced.append {text more : Text} (h : Unspaced text) (hmore : Unspaced more) :
    Unspaced (text ++ more) := by
  cases text with
  | nil => exact hmore
  | cons c text => exact h

theorem Unspaced.no_break {text : Text} (h : Unspaced text) : ∀ c ∈ text.head?, isBreak c = false :=
  fun c hc => isBreak_eq_false_of_isWhite_eq_false (h c hc)

/-- The text is empty or begins with a character that a reader does not pass over. -/
def Content (text : Text) : Prop :=
  ∀ c ∈ text.head?, isWhite c = false ∧ c ≠ '#' ∧ c ≠ byteOrderMark

theorem Content.unspaced {text : Text} (h : Content text) : Unspaced text :=
  fun c hc => (h c hc).1

theorem content_cons {c : Char} {rest : Text} :
    Content (c :: rest) ↔ isWhite c = false ∧ c ≠ '#' ∧ c ≠ byteOrderMark := by
  simp [Content]

theorem Content.append {text : Text} (h : Content text) (hne : text ≠ []) (more : Text) :
    Content (text ++ more) := by
  rwa [Content, List.head?_append_of_ne_nil _ hne]

theorem hasPair_eq_false_iff {p q : Char → Bool} {text : Text} : hasPair p q text = false ↔
    ∀ a b, [a, b] <:+: text → p a → q b = false := by
  fun_induction hasPair p q text with
  | case1 a b rest ih =>
    rw [Bool.or_eq_false_iff, ih]
    constructor
    · rintro ⟨first, others⟩ x y inside hx
      rcases List.infix_cons_iff.1 inside with front | inside
      · obtain ⟨rfl, second⟩ := List.cons_prefix_cons.1 front
        obtain ⟨rfl, -⟩ := List.cons_prefix_cons.1 second
        simpa [hx] using first
      · exact others x y inside hx
    · intro none
      refine ⟨?_, fun x y inside => none x y (inside.trans (List.suffix_cons a _).isInfix)⟩
      by_cases ha : p a
      · simp [none a b ⟨[], rest, rfl⟩ ha]
      · simp [ha]
  | case2 text short =>
    simp only [true_iff]
    rintro a b ⟨before, after, whole⟩
    match text, short with
    | [], _ => simp at whole
    | [c], _ =>
      have lengths := congrArg List.length whole
      simp at lengths
      omega
    | c :: d :: rest, short => exact absurd rfl (short c d rest)

/-! ## Indented lines -/

section Indented

variable {fresh : Bool} {n : Nat} {line bs text : Text}

/-- Only the start of a line is indented. -/
theorem indented_line (h : ∀ c ∈ line, isBreak c = false) (rest : Text) :
    indented n false (line ++ rest) = line ++ indented n false rest := by
  induction line with
  | nil => rfl
  | cons c line ih =>
    rw [List.cons_append, indented, h c List.mem_cons_self]
    simp [ih fun d hd => h d (List.mem_cons_of_mem c hd)]

theorem indented_breaks (hne : bs ≠ []) (h : ∀ b ∈ bs, isBreak b) (rest : Text) :
    indented n fresh (bs ++ rest) = bs ++ indented n true rest := by
  induction bs generalizing fresh with
  | nil => exact absurd rfl hne
  | cons b bs ih =>
    rw [List.cons_append, indented, if_pos (h b List.mem_cons_self)]
    by_cases last : bs = []
    · subst last
      rfl
    · rw [ih last fun d hd => h d (List.mem_cons_of_mem b hd)]
      rfl

theorem indented_fresh {c : Char} (h : isBreak c = false) (rest : Text) :
    indented n true (c :: rest) = spaces n ++ indented n false (c :: rest) := by
  simp [indented, h]

theorem indented_append_break {b : Char} (h : isBreak b) :
    indented n fresh (text ++ [b]) = indented n fresh text ++ [b] := by
  induction text generalizing fresh with
  | nil => simp [indented, h]
  | cons c text ih =>
    rw [List.cons_append, indented, indented]
    split <;> simp [ih]

theorem length_le_indented : text.length ≤ (indented n fresh text).length := by
  induction text generalizing fresh with
  | nil => exact Nat.le_refl _
  | cons c text ih =>
    rw [indented]
    split
    · have longer : text.length ≤ (indented n true text).length := ih
      simp only [List.length_cons]
      omega
    · have longer : text.length ≤ (indented n false text).length := ih
      simp only [List.length_cons, List.length_append]
      omega

theorem getLast?_indented : (indented n fresh text).getLast? = text.getLast? := by
  induction text generalizing fresh with
  | nil => rfl
  | cons c text ih =>
    rw [indented]
    split
    · rw [List.getLast?_cons, List.getLast?_cons, ih]
    · rw [List.getLast?_append_of_ne_nil _ (List.cons_ne_nil _ _), List.getLast?_cons,
        List.getLast?_cons, ih]

end Indented

/-- The text with a line break at its end. -/
def closed (text : Text) : Text :=
  match text.getLast? with
  | some c => if isBreak c then text else text ++ ['\n']
  | none => ['\n']

theorem closed_append {front text : Text} (hne : text ≠ []) :
    closed (front ++ text) = front ++ closed text := by
  obtain ⟨body, last, rfl⟩ := List.eq_nil_or_concat text |>.resolve_left hne
  simp only [closed, List.concat_eq_append, ← List.append_assoc, List.getLast?_concat]
  split <;> simp

theorem closed_of_no_break {text : Text} (h : ∀ c ∈ text.getLast?, isBreak c = false) :
    closed text = text ++ ['\n'] := by
  rw [closed]
  cases last : text.getLast? with
  | none => rw [List.getLast?_eq_none_iff.1 last]; rfl
  | some c => simp [h c last]

theorem closed_of_break {text : Text} {b : Char} (last : text.getLast? = some b) (h : isBreak b) :
    closed text = text := by
  simp [closed, last, h]

theorem isBreak_closed {text : Text} : ∀ c ∈ (closed text).getLast?, isBreak c := by
  intro c hc
  rw [closed] at hc
  split at hc
  · rename_i d last
    split at hc
    · rename_i ends
      rw [last] at hc
      rwa [← Option.some.inj hc]
    · obtain rfl : '\n' = c := by simpa using hc
      exact isKept_lineFeed.1
  · obtain rfl : '\n' = c := by simpa using hc
    exact isKept_lineFeed.1

theorem mem_closed {text : Text} {c : Char} (h : c ∈ closed text) : c ∈ text ∨ c = '\n' := by
  rw [closed] at h
  split at h
  · split at h
    · exact Or.inl h
    · simpa using h
  · exact Or.inr (List.mem_singleton.1 h)

theorem head?_closed {text : Text} (hne : text ≠ []) : (closed text).head? = text.head? := by
  obtain ⟨c, more, rfl⟩ := List.exists_cons_of_ne_nil hne
  rw [closed]
  split
  · split <;> rfl
  · rename_i last
    simp at last

theorem Content.closed {text : Text} (hne : text ≠ []) (h : Content text) : Content (closed text) := by
  intro c hc
  rw [head?_closed hne] at hc
  exact h c hc

theorem closed_ne_nil (text : Text) : closed text ≠ [] := by
  rw [closed]
  split
  · rename_i c last
    split
    · rintro rfl
      simp at last
    · simp
  · simp

theorem closed_indented {n : Nat} {text : Text} (hne : text ≠ []) :
    closed (indented n true text) = indented n true (closed text) := by
  obtain ⟨body, last, rfl⟩ := List.eq_nil_or_concat text |>.resolve_left hne
  simp only [closed, getLast?_indented, List.concat_eq_append, List.getLast?_concat]
  split
  · rfl
  · exact (indented_append_break isKept_lineFeed.1).symm

/-- The longest first part of a text that satisfies `p`. -/
theorem exists_run (p : Char → Bool) (text : Text) : ∃ run rest, text = run ++ rest ∧
    (∀ c ∈ run, p c) ∧ ∀ c ∈ rest.head?, p c = false := by
  induction text with
  | nil => exact ⟨[], [], rfl, by simp, by simp⟩
  | cons c text ih =>
    by_cases hc : p c
    · obtain ⟨run, rest, rfl, inside, stops⟩ := ih
      exact ⟨c :: run, rest, rfl, List.forall_mem_cons.2 ⟨hc, inside⟩, stops⟩
    · exact ⟨[], c :: text, rfl, by simp, by simpa using hc⟩

theorem takeWhile_run {p : Char → Bool} {run rest : Text} (inside : ∀ c ∈ run, p c)
    (stops : ∀ c ∈ rest.head?, p c = false) : (run ++ rest).takeWhile p = run := by
  have none : rest.takeWhile p = [] := by
    cases rest with
    | nil => rfl
    | cons c rest => simp [stops c rfl]
  rw [List.takeWhile_append_of_pos inside, none, List.append_nil]

/-- The spaces at the start of a text. -/
theorem exists_spaces (text : Text) : ∃ n rest, text = spaces n ++ rest ∧ ∀ c ∈ rest.head?, c ≠ ' ' := by
  obtain ⟨run, rest, rfl, blank, stops⟩ := exists_run (· == ' ') text
  have run_eq : run = spaces run.length :=
    List.eq_replicate_of_mem fun c hc => by simpa using blank c hc
  rw [run_eq]
  exact ⟨run.length, rest, rfl, fun c hc => by simpa using stops c hc⟩

theorem spaces_concat (n : Nat) : spaces (n + 1) = spaces n ++ [' '] :=
  List.replicate_succ'

namespace Cursor

/-- The cursor stands in this column, before this text. -/
structure At (c : Cursor) (column : Nat) (rest : Text) : Prop where
  column : c.column = column
  rest : c.rest = rest

variable {c : Cursor} {column n : Nat} {passed rest : Text} {b : Char}

theorem At.skip (h : c.At column (passed ++ rest)) :
    (c.skip passed.length).At (column + passed.length) rest where
  column := congrArg (· + passed.length) h.column
  rest := by simp [Cursor.skip, h.rest]

theorem At.skip_one {x : Char} (h : c.At column (x :: rest)) : (c.skip 1).At (column + 1) rest :=
  @At.skip c column [x] rest h

theorem At.skip_spaces (h : c.At column (spaces n ++ rest)) : (c.skip n).At (column + n) rest := by
  have passed := h.skip
  rwa [length_spaces] at passed

theorem At.head? (h : c.At column rest) : c.head? = rest.head? := by
  rw [Cursor.head?, h.rest]

theorem At.headIs (h : c.At column rest) (x : Char) : c.headIs x = (rest.head? == some x) := by
  rw [Cursor.headIs, h.rest]

/-- A run of characters is passed to its end. -/
theorem At.skipWhile {p : Char → Bool} (h : c.At column (passed ++ rest)) (inside : ∀ x ∈ passed, p x)
    (stops : ∀ x ∈ rest.head?, p x = false) :
    (c.skipWhile p).At (column + passed.length) rest := by
  rw [Cursor.skipWhile, h.rest, takeWhile_run inside stops]
  exact h.skip

theorem At.skipWhile_none {p : Char → Bool} (h : c.At column rest)
    (stops : ∀ x ∈ rest.head?, p x = false) : c.skipWhile p = c := by
  have run : ([] ++ rest).takeWhile p = [] := takeWhile_run (by simp) stops
  rw [List.nil_append] at run
  rw [Cursor.skipWhile, h.rest, run]
  rfl

theorem At.takeBreak? (h : c.At column (b :: rest)) (kept : IsKept b) :
    ∃ c', c.takeBreak? = some (b, c') ∧ c'.At 0 rest := by
  have not_return := kept.ne_return
  have same : (if b == '\r' || b.toNat == 0x85 then '\n' else b) = b := by
    simp [not_return, kept.ne_nextLine]
  refine ⟨⟨rest, c.index + 1, c.line + 1, 0⟩, ?_, rfl, rfl⟩
  rw [Cursor.takeBreak?, h.rest]
  split
  · rename_i others heq
    exact absurd (List.cons.inj heq).1 not_return
  · rename_i first others _ heq
    obtain ⟨rfl, rfl⟩ := List.cons.inj heq
    rw [if_pos kept.1, same]
  · rename_i heq
    cases heq

theorem At.takeBreak?_none (h : c.At column rest) (stops : ∀ x ∈ rest.head?, isBreak x = false) :
    c.takeBreak? = none := by
  rw [Cursor.takeBreak?, h.rest]
  split
  · exact absurd (stops '\r' rfl) (by decide)
  · rename_i first others _
    rw [stops first rfl]
    rfl
  · rfl

theorem At.atDocumentMark (h : c.At column rest) (hne : column ≠ 0) : c.atDocumentMark = false := by
  simp [Cursor.atDocumentMark, h.column, hne]

end Cursor

/-! ## Gaps -/

namespace Gap

/-- The gap with one more white character. -/
def add (gap : Gap) (c : Char) : Gap :=
  if c = ' ' then gap.addBlank c else gap.addBreak c

/-- The column after a white character. -/
def nextColumn (column : Nat) (c : Char) : Nat :=
  if c = ' ' then column + 1 else 0

variable {margin column n : Nat} {gap : Gap} {white rest : Text} {c : Cursor}

theorem readFrom_of_unspaced (fuel : Nat) (h : c.At column rest) (unspaced : Unspaced rest) :
    readFrom margin fuel gap c = some (gap, c) := by
  cases fuel with
  | zero => rfl
  | succ fuel =>
    rw [readFrom, h.head?]
    cases rest with
    | nil => rfl
    | cons x rest =>
      have white := unspaced_cons.1 unspaced
      simp [isSpaceOrTab_eq_false_of_isWhite_eq_false white, h.takeBreak?_none unspaced.no_break]

/-- A gap takes all of the white space. -/
theorem readFrom_white {fuel : Nat} (h : c.At column (white ++ rest))
    (kept : ∀ x ∈ white, IsBlankOrKept x) (unspaced : Unspaced rest) (fuel_le : white.length ≤ fuel) :
    ∃ c', readFrom margin fuel gap c = some (white.foldl add gap, c') ∧
      c'.At (white.foldl nextColumn column) rest := by
  induction white generalizing fuel gap c column with
  | nil => exact ⟨c, readFrom_of_unspaced fuel h unspaced, h⟩
  | cons x white ih =>
    obtain ⟨fuel, rfl⟩ : ∃ less, fuel = less + 1 := ⟨fuel - 1, by simp at fuel_le; omega⟩
    have fuel_le' : white.length ≤ fuel := by simpa using fuel_le
    have others := fun y hy => kept y (List.mem_cons_of_mem x hy)
    have step : ∃ c', readFrom margin (fuel + 1) gap c = readFrom margin fuel (gap.add x) c' ∧
        c'.At (nextColumn column x) (white ++ rest) := by
      rw [readFrom, h.head?, List.cons_append, List.head?_cons]
      rcases kept x List.mem_cons_self with rfl | kept
      · refine ⟨c.skip 1, ?_, h.skip_one⟩
        have space : isSpaceOrTab ' ' = true := by decide
        have no_tab : (' ' == '\t') = false := by decide
        simp [space, no_tab, add]
      · have blank : isSpaceOrTab x = false := by
          simp [isSpaceOrTab, kept.ne_space, kept.ne_tab]
        obtain ⟨c', taken, at'⟩ := h.takeBreak? kept
        refine ⟨c', ?_, ?_⟩
        · simp [blank, taken, add, kept.ne_space]
        · rwa [nextColumn, if_neg kept.ne_space]
    obtain ⟨c', reads, at'⟩ := step
    rw [reads]
    exact ih at' others fuel_le'

theorem read?_white (margin : Nat) (gap : Gap) (h : c.At column (white ++ rest))
    (kept : ∀ x ∈ white, IsBlankOrKept x) (unspaced : Unspaced rest) :
    ∃ c', read? margin gap c = some (white.foldl add gap, c') ∧
      c'.At (white.foldl nextColumn column) rest :=
  readFrom_white h kept unspaced (by rw [h.rest, List.length_append]; omega)

theorem foldl_add_spaces (text : Text) (n : Nat) :
    (spaces n).foldl add (blanks text) = blanks (text ++ spaces n) := by
  induction n generalizing text with
  | zero => simp [spaces]
  | succ n ih =>
    rw [spaces_succ, List.foldl_cons, add, if_pos rfl, addBlank, ih, List.append_assoc]
    rfl

theorem foldl_add_breaks (first : Option Char) (more : Text) (n : Nat) {bs : Text}
    (kept : ∀ b ∈ bs, IsKept b) :
    (bs ++ spaces n).foldl add (breaks first more) = breaks first (more ++ bs) := by
  induction bs generalizing more with
  | nil =>
    rw [List.nil_append, List.append_nil]
    induction n with
    | zero => rfl
    | succ n ih =>
      rw [spaces_succ, List.foldl_cons, add, if_pos rfl, addBlank, ih]
      intro text
      simp
  | cons b bs ih =>
    have space := (kept b List.mem_cons_self).ne_space
    rw [List.cons_append, List.foldl_cons, add, if_neg space, addBreak,
      ih _ fun d hd => kept d (List.mem_cons_of_mem b hd), List.append_assoc]
    rfl

theorem foldl_nextColumn_spaces (column n : Nat) :
    (spaces n).foldl nextColumn column = column + n := by
  induction n generalizing column with
  | zero => rfl
  | succ n ih =>
    rw [spaces_succ, List.foldl_cons, nextColumn, if_pos rfl, ih]
    omega

theorem foldl_nextColumn_breaks (column n : Nat) {b : Char} {bs : Text} (kept : ∀ d ∈ b :: bs, IsKept d) :
    (b :: bs ++ spaces n).foldl nextColumn column = n := by
  have last : ∀ bs : Text, (∀ d ∈ bs, IsKept d) → bs.foldl nextColumn 0 = 0 := by
    intro bs
    induction bs with
    | nil => intro; rfl
    | cons d bs ih =>
      intro kept
      rw [List.foldl_cons, nextColumn, if_neg (kept d List.mem_cons_self).ne_space]
      exact ih fun e he => kept e (List.mem_cons_of_mem d he)
  rw [List.foldl_append, List.foldl_cons, nextColumn, if_neg (kept b List.mem_cons_self).ne_space,
    last bs fun d hd => kept d (List.mem_cons_of_mem b hd), foldl_nextColumn_spaces, Nat.zero_add]

/-- Spaces between two words are kept. -/
theorem read?_spaces (margin : Nat) (text : Text) (n : Nat) (h : c.At column (spaces n ++ rest))
    (unspaced : Unspaced rest) :
    ∃ c', read? margin (blanks text) c = some (blanks (text ++ spaces n), c') ∧
      c'.At (column + n) rest := by
  obtain ⟨c', reads, at'⟩ := read?_white margin (blanks text) h
    (fun x hx => Or.inl (mem_spaces hx)) unspaced
  rw [foldl_add_spaces] at reads
  rw [foldl_nextColumn_spaces] at at'
  exact ⟨c', reads, at'⟩

/-- The spaces after line breaks are the indentation of the next line. -/
theorem read?_breaks (margin : Nat) (text : Text) {b : Char} {bs : Text}
    (kept : ∀ d ∈ b :: bs, IsKept d) (h : c.At column (b :: bs ++ spaces n ++ rest))
    (unspaced : Unspaced rest) :
    ∃ c', read? margin (blanks text) c = some (breaks (some b) bs, c') ∧ c'.At n rest := by
  have white : ∀ x ∈ b :: bs ++ spaces n, IsBlankOrKept x := by
    intro x hx
    rcases List.mem_append.1 hx with hx | hx
    · exact Or.inr (kept x hx)
    · exact Or.inl (mem_spaces hx)
  obtain ⟨c', reads, at'⟩ := read?_white margin (blanks text) h white unspaced
  rw [foldl_nextColumn_breaks column n kept] at at'
  refine ⟨c', ?_, at'⟩
  rw [reads, List.cons_append, List.foldl_cons, add, if_neg (kept b List.mem_cons_self).ne_space,
    addBreak, foldl_add_breaks _ _ n fun d hd => kept d (List.mem_cons_of_mem b hd), List.nil_append]

end Gap

end ComponentForge.Yaml

import ComponentForge.Proofs.Yaml.White
import ComponentForge.Proofs.Text.Split
import ComponentForge.Yaml.Scalar.Block

/-!
# Reading literal blocks

A text of several lines is printed with the indentation of its block before every line that is not
empty. The marks in the header tell the indentation where the first line cannot, and how many of the
breaks at the end belong to the text.
-/

namespace ComponentForge.Yaml

namespace Block

/-- Lines that are not empty, each with the breaks after it. -/
inductive Lines : Text → Prop
  | nil : Lines []
  | cons {line bs text : Text} {b : Char} : line ≠ [] → (∀ c ∈ line, isBreak c = false) →
    (∀ d ∈ b :: bs, IsKept d) → Lines text → Lines (line ++ (b :: bs ++ text))

variable {n k fuel margin column : Nat} {text rest bs line : Text} {c : Cursor} {b : Char}

theorem Lines.no_break (h : Lines text) : ∀ c ∈ text.head?, isBreak c = false := by
  cases h with
  | nil => simp
  | cons hne inside _ _ =>
    obtain ⟨d, more, rfl⟩ := List.exists_cons_of_ne_nil hne
    simpa using inside d List.mem_cons_self

theorem Lines.indented (h : Lines text) (hne : text ≠ []) :
    indented n true text = spaces n ++ indented n false text := by
  obtain ⟨c, more, rfl⟩ := List.exists_cons_of_ne_nil hne
  exact indented_fresh (h.no_break c rfl) more

theorem indented_cons (inside : ∀ c ∈ line, isBreak c = false) (kept : ∀ d ∈ b :: bs, IsKept d)
    (text : Text) : Yaml.indented n false (line ++ (b :: bs ++ text)) =
      line ++ (b :: bs ++ Yaml.indented n true text) := by
  rw [indented_line inside, indented_breaks (List.cons_ne_nil b bs) fun d hd => (kept d hd).1]

theorem takeWhile_spaces (unspaced : Unspaced rest) :
    (spaces k ++ rest).takeWhile (· == ' ') = spaces k :=
  takeWhile_run (fun c hc => by simp [mem_spaces hc]) fun x hx => by
    simp [ne_space_of_isWhite_eq_false (unspaced x hx)]

theorem headIs_tab (at_rest : c.At column rest) (unspaced : Unspaced rest) : c.headIs '\t' = false := by
  rw [at_rest.headIs]
  cases rest with
  | nil => rfl
  | cons x rest =>
    have other : x ≠ '\t' := by
      rintro rfl
      exact absurd (unspaced_cons.1 unspaced) (by decide)
    simp [other]

/-- The spaces before a line are passed as far as the block is indented. -/
theorem breaksFrom_spaces (widest : Nat) (acc : Text) (hn : n ≠ 0) (at_start : c.At 0 (spaces k ++ rest))
    (indentation : k = n ∨ k < n ∧ Unspaced rest) (no_break : ∀ c ∈ rest.head?, isBreak c = false) :
    ∃ widest' c', breaksFrom n (fuel + 1) widest acc c = some (acc, widest', c') ∧ c'.At k rest := by
  have run : min (c.rest.takeWhile (· == ' ')).length (n - c.column) = k := by
    rw [at_start.rest, at_start.column]
    rcases indentation with rfl | ⟨less, unspaced⟩
    · rw [List.takeWhile_append_of_pos fun c hc => by simp [mem_spaces hc], List.length_append,
        length_spaces]
      omega
    · rw [takeWhile_spaces unspaced, length_spaces]
      omega
  have at_rest : (c.skip k).At k rest := by
    have passed := at_start.skip_spaces
    rwa [Nat.zero_add] at passed
  have no_tab : (decide ((c.skip k).column < n) && (c.skip k).headIs '\t') = false := by
    rcases indentation with rfl | ⟨-, unspaced⟩
    · simp [at_rest.column]
    · simp [headIs_tab at_rest unspaced]
  refine ⟨max widest (c.skip k).column, c.skip k, ?_, at_rest⟩
  rw [breaksFrom]
  simp only [hn, if_false, run, decide_false, Bool.false_or, no_tab, Bool.false_eq_true,
    at_rest.takeBreak?_none no_break]

/-- Empty lines are passed, and as much of the spaces after them as the block is indented. -/
theorem breaksFrom_known (widest : Nat) (acc : Text) (hn : n ≠ 0) (kept : ∀ d ∈ bs, IsKept d)
    (at_start : c.At 0 (bs ++ (spaces k ++ rest))) (indentation : k = n ∨ k < n ∧ Unspaced rest)
    (no_break : ∀ c ∈ rest.head?, isBreak c = false) (enough : bs.length < fuel) :
    ∃ widest' c', breaksFrom n fuel widest acc c = some (acc ++ bs, widest', c') ∧ c'.At k rest := by
  obtain ⟨fuel, rfl⟩ : ∃ less, fuel = less + 1 := ⟨fuel - 1, by omega⟩
  induction bs generalizing fuel widest acc c with
  | nil =>
    rw [List.append_nil]
    exact breaksFrom_spaces widest acc hn at_start indentation no_break
  | cons b bs ih =>
    have b_kept := kept b List.mem_cons_self
    obtain ⟨c', taken, at_next⟩ := at_start.takeBreak? b_kept
    have run : min (c.rest.takeWhile (· == ' ')).length (n - c.column) = 0 := by
      simp [at_start.rest, b_kept.ne_space]
    have no_tab : c.headIs '\t' = false := by
      simp [at_start.headIs, b_kept.ne_tab]
    obtain ⟨fuel, rfl⟩ : ∃ less, fuel = less + 1 := ⟨fuel - 1, by simp at enough; omega⟩
    have enough' : bs.length < fuel + 1 := by simpa using enough
    obtain ⟨widest', c'', reads, at_rest⟩ :=
      ih (max widest c.column) (acc ++ [b]) (fun d hd => kept d (List.mem_cons_of_mem b hd)) at_next
        fuel enough'
    refine ⟨widest', c'', ?_, at_rest⟩
    have skip_zero : c.skip 0 = c := rfl
    rw [breaksFrom]
    simp only [hn, if_false, run, skip_zero, no_tab, Bool.and_false, Bool.false_eq_true, taken, reads,
      List.append_assoc, List.singleton_append]

theorem breaks?_known (hn : n ≠ 0) (kept : ∀ d ∈ bs, IsKept d)
    (at_start : c.At 0 (bs ++ (spaces k ++ rest))) (indentation : k = n ∨ k < n ∧ Unspaced rest)
    (no_break : ∀ c ∈ rest.head?, isBreak c = false) :
    ∃ widest c', breaks? n c = some (bs, widest, c') ∧ c'.At k rest :=
  breaksFrom_known 0 [] hn kept at_start indentation no_break (by
    rw [at_start.rest, List.length_append]
    omega)

/-- The first line of a block tells its indentation. -/
theorem breaks?_unknown (at_start : c.At 0 (spaces k ++ rest)) (unspaced : Unspaced rest) :
    ∃ c', breaks? 0 c = some ([], k, c') ∧ c'.At k rest := by
  have run : (c.rest.takeWhile (· == ' ')).length = k := by
    rw [at_start.rest, takeWhile_spaces unspaced, length_spaces]
  have at_rest := at_start.skip_spaces
  rw [Nat.zero_add] at at_rest
  refine ⟨c.skip k, ?_, at_rest⟩
  rw [breaks?, breaksFrom]
  simp [run, headIs_tab at_rest unspaced, at_rest.takeBreak?_none unspaced.no_break, at_rest.column]

/-- The cursor has passed the indentation of the next line, which is one of the text or, after its
end, the one that starts with `rest`. -/
def Aligned (n k : Nat) (rest : Text) (c : Cursor) : Text → Prop
  | [] => c.At k rest
  | text => c.At n (Yaml.indented n false text ++ (spaces k ++ rest))

theorem breaks?_lines (h : Lines text) (below : k < n) (unspaced : Unspaced rest)
    (kept : ∀ d ∈ bs, IsKept d)
    (at_start : c.At 0 (bs ++ (Yaml.indented n true text ++ (spaces k ++ rest)))) :
    ∃ widest c', breaks? n c = some (bs, widest, c') ∧ Aligned n k rest c' text := by
  cases text with
  | nil => exact breaks?_known (by omega) kept at_start (Or.inr ⟨below, unspaced⟩) unspaced.no_break
  | cons d text =>
    have start : (Yaml.indented n false (d :: text)).head? = some d := by
      rw [Yaml.indented, h.no_break d rfl]
      rfl
    rw [h.indented (List.cons_ne_nil d text), List.append_assoc] at at_start
    refine breaks?_known (by omega) kept at_start (Or.inl rfl) ?_
    intro x hx
    rw [List.head?_append, start] at hx
    obtain rfl : d = x := by simpa using hx
    exact h.no_break d rfl

/-- After a text that does not end with a break the first of the breaks at the end, and the others. -/
inductive Ended (before : Part) : Text → Part → Prop
  | intro {body bs : Text} {b : Char} {blankStart : Bool} {c : Cursor} : body ≠ [] →
    (∀ d ∈ body.getLast?, isBreak d = false) → (∀ d ∈ b :: bs, IsKept d) →
    Ended before (body ++ b :: bs)
      ⟨before.text ++ before.lineBreak ++ before.emptyLines ++ body, [b], bs, blankStart, c⟩

theorem Ended.after_line {before part : Part} {blankStart : Bool} (ended : Ended
      ⟨before.text ++ before.lineBreak ++ before.emptyLines ++ line, [b], bs, blankStart, c⟩ text part) :
    Ended before (line ++ (b :: bs ++ text)) part := by
  cases ended with
  | @intro body bs' b' blank c' body_ne last kept =>
    have whole : line ++ (b :: bs ++ (body ++ b' :: bs')) =
        (line ++ (b :: bs) ++ body) ++ b' :: bs' := by simp
    have text_eq : before.text ++ before.lineBreak ++ before.emptyLines ++ line ++ [b] ++ bs ++ body =
        before.text ++ before.lineBreak ++ before.emptyLines ++ (line ++ (b :: bs) ++ body) := by simp
    rw [whole]
    dsimp only
    rw [text_eq]
    refine .intro (by simp) ?_ kept
    rwa [List.getLast?_append_of_ne_nil _ body_ne]

/-- One line of a block with the breaks after it. -/
theorem readFrom_line (fuel : Nat) {part : Part} (below : k < n) (unspaced : Unspaced rest)
    (inside : ∀ c ∈ line, isBreak c = false) (kept : ∀ d ∈ b :: bs, IsKept d) (h : Lines text)
    (at_line : part.cursor.At n
      (line ++ (b :: bs ++ (Yaml.indented n true text ++ (spaces k ++ rest))))) :
    ∃ blankStart c, Aligned n k rest c text ∧ readFrom false n (fuel + 1) part = readFrom false n fuel
      ⟨part.text ++ part.lineBreak ++ part.emptyLines ++ line, [b], bs, blankStart, c⟩ := by
  have run : part.cursor.rest.takeWhile (!isBreak ·) = line := by
    rw [at_line.rest]
    exact takeWhile_run (fun c hc => by simp [inside c hc]) (by simp [(kept b List.mem_cons_self).1])
  obtain ⟨c, taken, at_next⟩ := at_line.skip.takeBreak? (kept b List.mem_cons_self)
  obtain ⟨widest, c', passed, aligned⟩ := breaks?_lines h below unspaced
    (fun d hd => kept d (List.mem_cons_of_mem b hd)) at_next
  have goes_on : (part.cursor.column != n || part.cursor.rest.isEmpty) = false := by
    simp [at_line.column, at_line.rest]
  refine ⟨part.cursor.head?.any isSpaceOrTab, c', aligned, ?_⟩
  rw [readFrom]
  simp [goes_on, run, taken, passed, foldBreak]

theorem readFrom_lines (part : Part) (h : Lines text) (below : k < n) (unspaced : Unspaced rest)
    (aligned : Aligned n k rest part.cursor text) (enough : text.length < fuel) :
    ∃ part', readFrom false n fuel part = some part' ∧ part'.cursor.At k rest ∧
      (text = [] ∧ part' = part ∨ Ended part text part') := by
  obtain ⟨fuel, rfl⟩ : ∃ less, fuel = less + 1 := ⟨fuel - 1, by omega⟩
  induction h generalizing part fuel with
  | nil =>
    have at_end : part.cursor.At k rest := aligned
    have stops : (part.cursor.column != n || part.cursor.rest.isEmpty) = true := by
      have other : k ≠ n := by omega
      simp [at_end.column, other]
    refine ⟨part, ?_, at_end, Or.inl ⟨rfl, rfl⟩⟩
    rw [readFrom]
    simp [stops]
  | @cons line bs text b hne inside kept others ih =>
    have at_line : part.cursor.At n
        (line ++ (b :: bs ++ (Yaml.indented n true text ++ (spaces k ++ rest)))) := by
      obtain ⟨d, more, rfl⟩ := List.exists_cons_of_ne_nil hne
      have start : part.cursor.At n (Yaml.indented n false (d :: more ++ (b :: bs ++ text)) ++
        (spaces k ++ rest)) := aligned
      rw [indented_cons inside kept] at start
      simpa using start
    have pos := List.length_pos_iff.2 hne
    obtain ⟨fuel, rfl⟩ : ∃ less, fuel = less + 1 := ⟨fuel - 1, by simp at enough; omega⟩
    have enough' : text.length < fuel + 1 := by
      simp only [List.length_append, List.length_cons] at enough
      omega
    obtain ⟨blankStart, c, aligned', step⟩ :=
      readFrom_line (fuel + 1) below unspaced inside kept others at_line
    rw [step]
    obtain ⟨part', reads, at_end, last | ended⟩ :=
      ih ⟨part.text ++ part.lineBreak ++ part.emptyLines ++ line, [b], bs, blankStart, c⟩ aligned' fuel
        enough'
    · obtain ⟨rfl, rfl⟩ := last
      refine ⟨_, reads, at_end, Or.inr ?_⟩
      rw [List.append_nil]
      exact .intro hne (fun d hd => inside d (List.mem_of_mem_getLast? hd)) kept
    · exact ⟨part', reads, at_end, Or.inr ended.after_line⟩

/-! ## Headers -/

/-- The mark for the indentation. -/
def indentationMark (text : Text) : Text :=
  match text with
  | c :: _ => if c == ' ' || isBreak c then ['2'] else []
  | [] => []

/-- The mark for the breaks at the end. -/
def endingMark (text : Text) : Text :=
  match text.reverse with
  | [] => ['-']
  | [c] => if isBreak c then ['+'] else ['-']
  | c :: d :: _ => if !isBreak c then ['-'] else if isBreak d then ['+'] else []

theorem literalMarks_eq (text : Text) : literalMarks text = indentationMark text ++ endingMark text :=
  rfl

/-- What the marks mean. -/
def Chomping.mark : Chomping → Text
  | .strip => ['-']
  | .clip => []
  | .keep => ['+']

theorem skipToLineEnd?_feed (at_feed : c.At column ('\n' :: rest)) :
    ∃ c', c.skipToLineEnd? = some c' ∧ c'.At 0 rest := by
  obtain ⟨c', taken, at_next⟩ := at_feed.takeBreak? isKept_lineFeed
  have blanks : c.skipWhile isSpaceOrTab = c := at_feed.skipWhile_none (by simp [isSpaceOrTab])
  have no_comment : c.headIs '#' = false := by simp [at_feed.headIs]
  have ends : atBreak c.rest = true := by
    rw [at_feed.rest]
    rfl
  refine ⟨c', ?_, at_next⟩
  rw [Cursor.skipToLineEnd?]
  simp [blanks, no_comment, ends, Cursor.skipBreak, taken]

theorem header?_mark (chomping : Chomping)
    (at_marks : c.At column (chomping.mark ++ '\n' :: rest)) :
    ∃ c', header? c = some (⟨chomping, 0⟩, c') ∧ c'.At 0 rest := by
  obtain ⟨c', skipped, at_next⟩ := skipToLineEnd?_feed at_marks.skip
  refine ⟨c', ?_, at_next⟩
  cases chomping with
  | clip =>
    have first : c.head? = some '\n' := at_marks.head?
    have here : c.skipToLineEnd? = some c' := skipped
    simp [header?, first, chomping?, digit?, here]
  | strip =>
    have first : c.head? = some '-' := at_marks.head?
    have at_feed : (c.skip 1).At (column + 1) ('\n' :: rest) := at_marks.skip_one
    have second : (c.skip 1).head? = some '\n' := at_feed.head?
    have here : (c.skip 1).skipToLineEnd? = some c' := skipped
    simp [header?, first, second, chomping?, digit?, here]
  | keep =>
    have first : c.head? = some '+' := at_marks.head?
    have at_feed : (c.skip 1).At (column + 1) ('\n' :: rest) := at_marks.skip_one
    have second : (c.skip 1).head? = some '\n' := at_feed.head?
    have here : (c.skip 1).skipToLineEnd? = some c' := skipped
    simp [header?, first, second, chomping?, digit?, here]

theorem header?_increment (chomping : Chomping)
    (at_marks : c.At column ('2' :: (chomping.mark ++ '\n' :: rest))) :
    ∃ c', header? c = some (⟨chomping, 2⟩, c') ∧ c'.At 0 rest := by
  have skip_two : (c.skip 1).skip 1 = c.skip 2 := by simp [Cursor.skip]
  have first : c.head? = some '2' := at_marks.head?
  have at_mark := at_marks.skip_one
  obtain ⟨c', skipped, at_next⟩ := skipToLineEnd?_feed at_mark.skip
  refine ⟨c', ?_, at_next⟩
  cases chomping with
  | clip =>
    have second : (c.skip 1).head? = some '\n' := at_mark.head?
    have here : (c.skip 1).skipToLineEnd? = some c' := skipped
    simp [header?, first, second, chomping?, digit?, here]
  | strip =>
    have second : (c.skip 1).head? = some '-' := at_mark.head?
    have here : (c.skip 2).skipToLineEnd? = some c' := skip_two ▸ skipped
    simp [header?, first, second, chomping?, digit?, here]
  | keep =>
    have second : (c.skip 1).head? = some '+' := at_mark.head?
    have here : (c.skip 2).skipToLineEnd? = some c' := skip_two ▸ skipped
    simp [header?, first, second, chomping?, digit?, here]

/-- The breaks at the end that belong to the text. -/
def Chomping.ending (chomping : Chomping) (b : Char) (bs : Text) : Text :=
  match chomping with
  | .strip => []
  | .clip => [b]
  | .keep => b :: bs

theorem endingMark_concat (body : Text) (c : Char) : endingMark (body ++ [c]) =
    if isBreak c = false then Chomping.strip.mark
    else if body.getLast?.any fun d => !isBreak d then Chomping.clip.mark
    else Chomping.keep.mark := by
  rcases List.eq_nil_or_concat body with rfl | ⟨front, d, rfl⟩
  · cases ends : isBreak c <;> simp [endingMark, ends, Chomping.mark]
  · cases ends : isBreak c <;> cases before : isBreak d <;>
      simp [endingMark, ends, before, Chomping.mark]

theorem exists_mark (hne : text ≠ []) : ∃ chomping : Chomping, endingMark text = chomping.mark := by
  obtain ⟨body, c, rfl⟩ := List.eq_nil_or_concat text |>.resolve_left hne
  rw [List.concat_eq_append, endingMark_concat]
  split
  · exact ⟨.strip, rfl⟩
  · split
    · exact ⟨.clip, rfl⟩
    · exact ⟨.keep, rfl⟩

theorem Chomping.mark_injective {chomping other : Chomping} (h : chomping.mark = other.mark) :
    chomping = other := by
  cases chomping <;> cases other <;> first | rfl | simp [mark] at h

/-- The mark tells how many of the breaks at the end belong to the text. -/
theorem exists_chomping {front : Text} (hne : text ≠ []) (whole : closed text = front ++ b :: bs)
    (last : ∀ c ∈ front.getLast?, isBreak c = false) (breaks : ∀ d ∈ b :: bs, isBreak d) :
    ∃ chomping : Chomping, endingMark text = chomping.mark ∧ front ++ chomping.ending b bs = text ∧
      (front = [] → chomping = .keep) := by
  obtain ⟨body, c, rfl⟩ := List.eq_nil_or_concat text |>.resolve_left hne
  rw [List.concat_eq_append] at *
  have mark := endingMark_concat body c
  by_cases ends : isBreak c
  · rw [closed_of_break List.getLast?_concat ends] at whole
    rw [if_neg (by simp [ends])] at mark
    rcases List.eq_nil_or_concat bs with rfl | ⟨mid, d, rfl⟩
    · obtain ⟨rfl, same⟩ := List.append_inj' whole rfl
      obtain rfl : c = b := by simpa using same
      by_cases clipped : body.getLast?.any fun d => !isBreak d
      · rw [if_pos clipped] at mark
        refine ⟨.clip, mark, rfl, ?_⟩
        rintro rfl
        simp at clipped
      · rw [if_neg clipped] at mark
        exact ⟨.keep, mark, rfl, fun _ => rfl⟩
    · rw [List.concat_eq_append] at whole breaks ⊢
      have whole' : body ++ [c] = (front ++ b :: mid) ++ [d] := by simpa using whole
      obtain ⟨rfl, same⟩ := List.append_inj' whole' rfl
      have kept : ¬ (front ++ b :: mid).getLast?.any fun e => !isBreak e := by
        rw [List.getLast?_append_of_ne_nil _ (List.cons_ne_nil b mid), Option.any_eq_true]
        rintro ⟨e, he, not_break⟩
        have inside : e ∈ b :: mid := List.mem_of_mem_getLast? he
        have is_break := breaks e (List.mem_append_left [d] inside)
        simp [is_break] at not_break
      rw [if_neg kept] at mark
      exact ⟨.keep, mark, whole.symm, fun _ => rfl⟩
  · have not_break : isBreak c = false := by simpa using ends
    have unique := Text.splitEnd_append_of_last last breaks
    rw [← whole, closed_of_no_break (by simpa using not_break)] at unique
    have parts : Text.splitEnd isBreak ((body ++ [c]) ++ ['\n']) = (body ++ [c], ['\n']) :=
      Text.splitEnd_append_of_last (by simpa using not_break) (by simp [isBreak])
    obtain ⟨rfl, same⟩ := Prod.mk.inj (parts.symm.trans unique)
    rw [if_pos not_break] at mark
    refine ⟨.strip, mark, by simp [Chomping.ending], by simp⟩

/-- A text that does not begin with a break is a sequence of lines once it is closed. -/
theorem lines_of_printable (printable : ∀ c ∈ text, isPrintable c)
    (ends : ∀ c ∈ text.getLast?, isBreak c) (start : ∀ c ∈ text.head?, isBreak c = false) :
    Lines text := by
  obtain ⟨size, bound⟩ : ∃ size, text.length ≤ size := ⟨_, Nat.le_refl _⟩
  induction size generalizing text with
  | zero =>
    obtain rfl := List.length_eq_zero_iff.1 (Nat.le_zero.1 bound)
    exact .nil
  | succ size ih =>
    obtain ⟨line, rest, rfl, inside, stops⟩ := exists_run (!isBreak ·) text
    simp only [Bool.not_eq_true', Bool.not_eq_false'] at inside stops
    cases rest with
    | nil =>
      rw [List.append_nil] at ends start ⊢
      rcases List.eq_nil_or_concat line with rfl | ⟨front, c, rfl⟩
      · exact .nil
      · have is_break := ends c (by simp)
        rw [inside c (by simp)] at is_break
        cases is_break
    | cons b rest =>
      obtain ⟨bs, text, rfl, breaks, stops'⟩ := exists_run isBreak rest
      have line_ne : line ≠ [] := by
        rintro rfl
        have not_break := start b rfl
        rw [stops b rfl] at not_break
        cases not_break
      have kept : ∀ d ∈ b :: bs, IsKept d := by
        intro d hd
        refine ⟨?_, printable d (by simp at hd ⊢; tauto)⟩
        rcases List.mem_cons.1 hd with rfl | hd
        · exact stops d rfl
        · exact breaks d hd
      have less : text.length ≤ size := by
        simp only [List.length_append, List.length_cons] at bound
        omega
      refine .cons line_ne inside kept (ih (fun c hc => printable c (by simp [hc])) ?_ stops' less)
      intro c hc
      refine ends c ?_
      have hne : text ≠ [] := by
        rintro rfl
        simp at hc
      rwa [← List.cons_append, ← List.append_assoc, List.getLast?_append_of_ne_nil _ hne]

theorem closed_literal (n : Nat) (hne : text ≠ []) : closed (literal n text) =
    '|' :: (literalMarks text ++ '\n' :: Yaml.indented n true (closed text)) := by
  have shown : Yaml.indented n true text ≠ [] := by
    have longer : text.length ≤ (Yaml.indented n true text).length := length_le_indented
    have pos := List.length_pos_iff.2 hne
    exact List.length_pos_iff.1 (by omega)
  have front : literal n text = ('|' :: literalMarks text ++ ['\n']) ++ Yaml.indented n true text := by
    simp [literal]
  rw [front, closed_append shown, closed_indented hne]
  simp

theorem isKept_of_mem_closed (printable : ∀ c ∈ text, isPrintable c) {d : Char} (hd : d ∈ closed text)
    (is_break : isBreak d) : IsKept d := by
  rcases mem_closed hd with hd | rfl
  · exact ⟨is_break, printable d hd⟩
  · exact isKept_lineFeed

/-- A closed text is empty lines and then a sequence of lines. -/
theorem exists_lead (printable : ∀ c ∈ text, isPrintable c) :
    ∃ lead lines, closed text = lead ++ lines ∧ (∀ d ∈ lead, IsKept d) ∧ Lines lines := by
  obtain ⟨lead, lines, whole, breaks, stops⟩ := exists_run isBreak (closed text)
  have kept : ∀ d ∈ lead, IsKept d := fun d hd =>
    isKept_of_mem_closed printable (whole ▸ List.mem_append_left lines hd) (breaks d hd)
  refine ⟨lead, lines, whole, kept, lines_of_printable ?_ ?_ stops⟩
  · intro d hd
    rcases mem_closed (whole ▸ List.mem_append_right lead hd) with hd | rfl
    · exact printable d hd
    · exact isKept_lineFeed.2
  · intro d hd
    have lines_ne : lines ≠ [] := by
      rintro rfl
      simp at hd
    have last : d ∈ (closed text).getLast? := by
      rwa [whole, List.getLast?_append_of_ne_nil _ lines_ne]
    exact isBreak_closed d last

/-- A text that begins with a space or a break has its indentation given in the header. -/
theorem start_given (below : k < margin + 1) (unspaced : Unspaced rest) (pos : 0 < margin)
    {lead lines : Text} (whole : closed text = lead ++ lines) (kept : ∀ d ∈ lead, IsKept d)
    (h : Lines lines) {chomping : Chomping} (at_marks : c.At column ('2' :: (chomping.mark ++
      '\n' :: (Yaml.indented (margin + 1) true (closed text) ++ (spaces k ++ rest))))) :
    ∃ c' widest c'', header? c = some (⟨chomping, 2⟩, c') ∧
      breaks? (margin - 1 + 2) c' = some (lead, widest, c'') ∧
      Aligned (margin + 1) k rest c'' lines := by
  obtain ⟨c', found, at_start⟩ := header?_increment chomping at_marks
  have start : Yaml.indented (margin + 1) true (closed text) =
      lead ++ Yaml.indented (margin + 1) true lines := by
    rw [whole]
    by_cases lead_ne : lead = []
    · rw [lead_ne, List.nil_append, List.nil_append]
    · rw [indented_breaks lead_ne fun e he => (kept e he).1]
  rw [start, List.append_assoc] at at_start
  obtain ⟨widest, c'', passed, aligned⟩ := breaks?_lines h below unspaced kept at_start
  have given : margin - 1 + 2 = margin + 1 := by omega
  exact ⟨c', widest, c'', found, given ▸ passed, aligned⟩

/-- Any other text shows its indentation in its first line. -/
theorem start_seen {d : Char} {more : Text} (not_white : isWhite d = false)
    (h : Lines (closed (d :: more))) {chomping : Chomping} (at_marks : c.At column (chomping.mark ++
      '\n' :: (Yaml.indented (margin + 1) true (closed (d :: more)) ++ (spaces k ++ rest)))) :
    ∃ c' c'', header? c = some (⟨chomping, 0⟩, c') ∧ breaks? 0 c' = some ([], margin + 1, c'') ∧
      Aligned (margin + 1) k rest c'' (closed (d :: more)) := by
  obtain ⟨c', found, at_start⟩ := header?_mark chomping at_marks
  have hne : closed (d :: more) ≠ [] := closed_ne_nil (d :: more)
  rw [h.indented hne, List.append_assoc] at at_start
  obtain ⟨e, others, same⟩ := List.exists_cons_of_ne_nil hne
  have first : (closed (d :: more)).head? = some d := head?_closed (List.cons_ne_nil d more)
  rw [same] at at_start h first ⊢
  obtain rfl : e = d := by simpa using first
  have visible : Unspaced (Yaml.indented (margin + 1) false (e :: others) ++ (spaces k ++ rest)) := by
    rw [Yaml.indented, h.no_break e rfl]
    exact unspaced_cons.2 not_white
  obtain ⟨c'', passed, at_line⟩ := breaks?_unknown at_start visible
  exact ⟨c', c'', found, passed, at_line⟩

/-- The empty lines at the start and the indentation of the first line, given or seen. -/
theorem exists_start (printable : ∀ c ∈ text, isPrintable c) (hne : text ≠ []) (below : k < margin + 1)
    (unspaced : Unspaced rest) (pos : 0 < margin) {lead lines : Text}
    (whole : closed text = lead ++ lines) (kept : ∀ d ∈ lead, IsKept d) (h : Lines lines)
    {chomping : Chomping} (mark : endingMark text = chomping.mark)
    (at_marks : c.At column (literalMarks text ++
      '\n' :: (Yaml.indented (margin + 1) true (closed text) ++ (spaces k ++ rest)))) :
    ∃ increment c' widest c'', header? c = some (⟨chomping, increment⟩, c') ∧
      breaks? (if increment = 0 then 0 else margin - 1 + increment) c' = some (lead, widest, c'') ∧
      (increment = 0 ∧ widest = margin + 1 ∨ increment = 2) ∧
      Aligned (margin + 1) k rest c'' lines := by
  obtain ⟨d, more, rfl⟩ := List.exists_cons_of_ne_nil hne
  rw [literalMarks_eq, mark] at at_marks
  by_cases given : d = ' ' ∨ isBreak d
  · have indentation : indentationMark (d :: more) = ['2'] := by
      rcases given with rfl | is_break
      · rfl
      · simp [indentationMark, is_break]
    rw [indentation] at at_marks
    obtain ⟨c', widest, c'', found, passed, aligned⟩ :=
      start_given below unspaced pos whole kept h at_marks
    exact ⟨2, c', widest, c'', found, passed, Or.inr rfl, aligned⟩
  · obtain ⟨not_space, not_break⟩ := not_or.1 given
    have indentation : indentationMark (d :: more) = [] := by
      simp [indentationMark, not_space, not_break]
    rw [indentation] at at_marks
    have not_white : isWhite d = false := by
      have not_tab := ne_tab_of_isPrintable (printable d List.mem_cons_self)
      simp [isWhite, isSpaceOrTab, not_space, not_tab, not_break]
    have lead_nil : lead = [] := by
      have first : (closed (d :: more)).head? = some d := head?_closed hne
      cases lead with
      | nil => rfl
      | cons e lead =>
        rw [whole] at first
        obtain rfl : e = d := by simpa using first
        exact absurd (kept e List.mem_cons_self).1 not_break
    subst lead_nil
    obtain rfl : closed (d :: more) = lines := whole
    obtain ⟨c', c'', found, passed, aligned⟩ := start_seen not_white h at_marks
    exact ⟨0, c', margin + 1, c'', found, passed, Or.inl ⟨rfl, rfl⟩, aligned⟩

/-- What a block keeps of the breaks after its last line. -/
def Part.kept (part : Part) : Chomping → Text
  | .strip => []
  | .clip => part.lineBreak
  | .keep => part.lineBreak ++ part.emptyLines

theorem Aligned.length_lt (aligned : Aligned n k rest c text) : text.length < c.rest.length + 1 := by
  cases text with
  | nil => simp
  | cons d text =>
    have at_line : c.At n (Yaml.indented n false (d :: text) ++ (spaces k ++ rest)) := aligned
    have longer : (d :: text).length ≤ (Yaml.indented n false (d :: text)).length :=
      length_le_indented
    rw [at_line.rest, List.length_append]
    omega

/-- What was read of a closed text is the text, with the breaks that its mark keeps. -/
theorem text_append_kept (hne : text ≠ []) {lead lines : Text} (whole : closed text = lead ++ lines)
    (lead_kept : ∀ d ∈ lead, IsKept d) {chomping : Chomping} (mark : endingMark text = chomping.mark)
    {part : Part} (ended : lines = [] ∧ part = ⟨[], [], lead, false, c⟩ ∨
      Ended ⟨[], [], lead, false, c⟩ lines part) :
    part.text ++ part.kept chomping = text := by
  rcases ended with ⟨rfl, rfl⟩ | ended
  · obtain ⟨b, bs, rfl⟩ : ∃ b bs, lead = b :: bs := by
      refine List.exists_cons_of_ne_nil ?_
      rintro rfl
      exact closed_ne_nil text whole
    have whole' : closed text = [] ++ b :: bs := by rw [whole, List.append_nil]; rfl
    obtain ⟨chomping', mark', text_eq, keeps⟩ :=
      exists_chomping hne whole' (by simp) fun d hd => (lead_kept d hd).1
    obtain rfl := keeps rfl
    obtain rfl := Chomping.mark_injective (mark.symm.trans mark')
    exact text_eq
  · cases ended with
    | @intro body bs b blankStart c₁ body_ne last kept =>
      have last' : ∀ d ∈ (lead ++ body).getLast?, isBreak d = false := by
        rwa [List.getLast?_append_of_ne_nil _ body_ne]
      rw [← List.append_assoc] at whole
      obtain ⟨chomping', mark', text_eq, -⟩ :=
        exists_chomping hne whole last' fun d hd => (kept d hd).1
      obtain rfl := Chomping.mark_injective (mark.symm.trans mark')
      cases chomping <;> simpa [Chomping.ending, Part.kept] using text_eq

/-- A literal block is read up to the line after it, with as many breaks as the text has. -/
theorem read?_literal (printable : ∀ c ∈ text, isPrintable c) (hne : text ≠ []) (below : k < margin + 1)
    (unspaced : Unspaced rest) (pos : 0 < margin)
    (at_bar : c.At column (closed (literal (margin + 1) text) ++ (spaces k ++ rest))) :
    ∃ c', read? false margin c = some (text, c') ∧ c'.At k rest := by
  rw [closed_literal _ hne] at at_bar
  have at_marks : (c.skip 1).At (column + 1) (literalMarks text ++
      '\n' :: (Yaml.indented (margin + 1) true (closed text) ++ (spaces k ++ rest))) := by
    have after := at_bar.skip_one
    simpa using after
  obtain ⟨lead, lines, whole, kept, lines_read⟩ := exists_lead printable
  obtain ⟨chomping, mark⟩ := exists_mark hne
  obtain ⟨increment, c', widest, c'', found, passed, indentation, aligned⟩ :=
    exists_start printable hne below unspaced pos whole kept lines_read mark at_marks
  obtain ⟨part, reads, at_end, ended⟩ :=
    readFrom_lines ⟨[], [], lead, false, c''⟩ lines_read below unspaced aligned aligned.length_lt
  have indent : (if (if increment = 0 then 0 else margin - 1 + increment) = 0 then
      max widest (max margin 1) else if increment = 0 then 0 else margin - 1 + increment) =
        margin + 1 := by
    rcases indentation with ⟨rfl, rfl⟩ | rfl
    · simp only [↓reduceIte]
      omega
    · simp
      omega
  have ending : part.text ++ part.kept chomping = text :=
    text_append_kept hne whole kept mark ended
  refine ⟨part.cursor, ?_, at_end⟩
  rw [read?]
  simp only [found, Option.bind_eq_bind, Option.bind_some, passed, indent, reads, Option.pure_def,
    Option.some.injEq, Prod.mk.injEq, and_true]
  exact ending

end Block

end ComponentForge.Yaml

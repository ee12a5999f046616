import ComponentForge.Proofs.Yaml.White
import ComponentForge.Yaml.Scalar.Plain

/-!
# Reading plain scalars

A text that is printed plainly is a sequence of words with spaces between them. Reading goes from
word to word and ends with the line, in front of the next one.
-/

namespace ComponentForge.Yaml

namespace Plain

/-- No white space, no comment at the start and no mark of a value at the end. -/
structure Word (word : Text) : Prop where
  ne_nil : word ≠ []
  solid : ∀ c ∈ word, isWhite c = false
  no_comment : word.head? ≠ some '#'
  no_colon : word.getLast? ≠ some ':'

/-- Words with spaces between them. -/
inductive Words : Text → Prop
  | word {word : Text} : Word word → Words word
  | cons {word text : Text} (n : Nat) : Word word → Words text → Words (word ++ (spaces (n + 1) ++ text))

variable {margin column n fuel : Nat} {word text tail rest : Text} {c : Cursor} {part : Part}

theorem Words.exists_word (h : Words text) : ∃ word rest, text = word ++ rest ∧ Word word := by
  cases h with
  | word first => exact ⟨_, [], (List.append_nil _).symm, first⟩
  | cons n first _ => exact ⟨_, _, rfl, first⟩

theorem Words.ne_nil (h : Words text) : text ≠ [] := by
  obtain ⟨word, rest, rfl, first⟩ := h.exists_word
  simp [first.ne_nil]

theorem Words.unspaced (h : Words text) (tail : Text) : Unspaced (text ++ tail) := by
  obtain ⟨word, rest, rfl, first⟩ := h.exists_word
  obtain ⟨c, more, rfl⟩ := List.exists_cons_of_ne_nil first.ne_nil
  exact unspaced_cons.2 (first.solid c List.mem_cons_self)

theorem Words.no_break_last (h : Words text) : ∀ c ∈ text.getLast?, isBreak c = false := by
  induction h with
  | word first =>
    exact fun c hc => isBreak_eq_false_of_isWhite_eq_false (first.solid c (List.mem_of_mem_getLast? hc))
  | cons n _ others ih =>
    intro c hc
    rw [List.getLast?_append_of_ne_nil _ (by simp [others.ne_nil]),
      List.getLast?_append_of_ne_nil _ others.ne_nil] at hc
    exact ih c hc

/-- A word goes up to where no word goes on, unless a mark of a value is in it. -/
theorem word?_append (solid : ∀ c ∈ word, isWhite c = false)
    (no_mark : ∀ before after, word = before ++ ':' :: after → atWhite (after ++ tail) = false)
    (stops : word? false tail = some []) : word? false (word ++ tail) = some word := by
  induction word with
  | nil => exact stops
  | cons c word ih =>
    have rest := ih (fun d hd => solid d (List.mem_cons_of_mem c hd))
      fun before after same => no_mark (c :: before) after (by rw [same]; rfl)
    have inner : (c == ':' && atWhite (word ++ tail)) = false := by
      by_cases colon : c = ':'
      · subst colon
        simpa using no_mark [] word rfl
      · simp [colon]
    rw [List.cons_append, word?]
    simp [solid c List.mem_cons_self, inner, rest]

theorem Word.no_mark (h : Word word) (before after : Text) (same : word = before ++ ':' :: after) :
    atWhite (after ++ tail) = false := by
  cases after with
  | nil => exact absurd (by simp [same]) h.no_colon
  | cons d after => exact h.solid d (by simp [same])

theorem word?_of_white {x : Char} (white : isWhite x) : word? false (x :: rest) = some [] := by
  rw [word?, if_pos white]

theorem Word.word?_append {x : Char} (h : Word word) (white : isWhite x) :
    word? false (word ++ x :: rest) = some word :=
  Plain.word?_append h.solid h.no_mark (word?_of_white white)

theorem Word.not_comment (h : Word word) (at_word : c.At column (word ++ tail)) :
    c.headIs '#' = false := by
  obtain ⟨d, more, rfl⟩ := List.exists_cons_of_ne_nil h.ne_nil
  have first : d ≠ '#' := by simpa using h.no_comment
  simp [at_word.headIs, first]

/-- A word and the gap after it. -/
theorem readFrom_word {x : Char} {gap : Gap} {c : Cursor} (h : Word word) (white : isWhite x)
    (at_word : part.cursor.At column (word ++ x :: rest)) (hne : column ≠ 0)
    (gap_read : Gap.read? margin .none (part.cursor.skip word.length) = some (gap, c)) :
    readFrom false margin (fuel + 1) part =
      if c.column < margin then some ⟨part.text ++ part.gap.fold ++ word, gap, c⟩
      else readFrom false margin fuel ⟨part.text ++ part.gap.fold ++ word, gap, c⟩ := by
  have after := at_word.skip
  have goes_on : ((part.cursor.skip word.length).rest.isEmpty ||
      !atWhite (part.cursor.skip word.length).rest) = false := by
    simp [after.rest, atWhite, white]
  have nonempty : word.isEmpty = false := by simpa using h.ne_nil
  rw [readFrom]
  simp only [at_word.atDocumentMark hne, h.not_comment at_word, Bool.or_self, Bool.false_eq_true,
    if_false, at_word.rest, h.word?_append white, Option.bind_eq_bind, Option.bind_some, nonempty,
    goes_on, gap_read, Bool.not_false, Bool.true_and, decide_eq_true_eq, Option.pure_def]

theorem readFrom_words (part : Part) (h : Words text) (unspaced : Unspaced rest) (below : n < margin)
    (at_text : part.cursor.At column (text ++ '\n' :: (spaces n ++ rest))) (right : margin ≤ column)
    (enough : text.length < fuel) : ∃ part', readFrom false margin fuel part = some part' ∧
      part'.text = part.text ++ part.gap.fold ++ text ∧ part'.gap.hasBreak = true ∧
      part'.cursor.At n rest := by
  obtain ⟨fuel, rfl⟩ : ∃ less, fuel = less + 1 := ⟨fuel - 1, by omega⟩
  induction h generalizing part column fuel with
  | @word word first =>
    have kept : ∀ d ∈ ['\n'], IsKept d := fun d hd => List.mem_singleton.1 hd ▸ isKept_lineFeed
    obtain ⟨c, gap_read, at_end⟩ := Gap.read?_breaks margin [] kept
      at_text.skip unspaced
    refine ⟨⟨part.text ++ part.gap.fold ++ word, .breaks (some '\n') [], c⟩, ?_, rfl, rfl, at_end⟩
    rw [readFrom_word first (by decide) at_text (by omega) gap_read, if_pos (by rwa [at_end.column])]
  | @cons word text m first others ih =>
    have at_space : part.cursor.At column
        (word ++ ' ' :: (spaces m ++ (text ++ '\n' :: (spaces n ++ rest)))) := by
      have whole := at_text.rest
      exact ⟨at_text.column, by rw [whole]; simp [spaces_succ]⟩
    have at_gap : (part.cursor.skip word.length).At (column + word.length)
        (spaces (m + 1) ++ (text ++ '\n' :: (spaces n ++ rest))) := by
      have after := at_space.skip
      exact ⟨after.column, by rw [after.rest]; simp [spaces_succ]⟩
    obtain ⟨c, gap_read, at_next⟩ := Gap.read?_spaces margin [] (m + 1) at_gap
      (others.unspaced _)
    have longer : text.length < fuel := by
      have pos := List.length_pos_iff.2 first.ne_nil
      simp only [List.length_append] at enough
      omega
    obtain ⟨less, rfl⟩ : ∃ less, fuel = less + 1 := ⟨fuel - 1, by omega⟩
    obtain ⟨part', reads, text_eq, breaks, at_end⟩ := ih
      ⟨part.text ++ part.gap.fold ++ word, .blanks ([] ++ spaces (m + 1)), c⟩ at_next (by omega) less
      longer
    refine ⟨part', ?_, ?_, breaks, at_end⟩
    · rw [readFrom_word first (by decide) at_space (by omega) gap_read,
        if_neg (by rw [at_next.column]; omega), reads]
    · rw [text_eq]
      simp [Gap.fold]

/-- A plain scalar is read up to the next line. -/
theorem read?_words (h : Words text) (unspaced : Unspaced rest) (below : n < margin)
    (at_text : c.At column (text ++ '\n' :: (spaces n ++ rest))) (right : margin ≤ column) :
    ∃ part, read? false margin c = some part ∧ part.text = text ∧ part.gap.hasBreak = true ∧
      part.cursor.At n rest := by
  have enough : text.length < c.rest.length + 1 := by
    rw [at_text.rest, List.length_append]
    omega
  obtain ⟨part, reads, same, breaks, at_end⟩ :=
    readFrom_words ⟨[], .none, c⟩ h unspaced below at_text right enough
  exact ⟨part, reads, same, breaks, at_end⟩

/-- A key is read up to the mark of its value. -/
theorem read?_key {x : Char} (hne : word ≠ []) (solid : ∀ c ∈ word, isWhite c = false)
    (no_colon : ':' ∉ word) (no_comment : word.head? ≠ some '#') (no_mark : c.atDocumentMark = false)
    (at_word : c.At column (word ++ ':' :: x :: rest)) (white : isWhite x) :
    read? false margin c = some ⟨word, .none, c.skip word.length⟩ := by
  have after := at_word.skip
  have stops : word? false (':' :: x :: rest) = some [] := by
    rw [word?, if_neg (by decide)]
    simp [atWhite, white]
  have inner : ∀ before after, word = before ++ ':' :: after →
      atWhite (after ++ ':' :: x :: rest) = false := by
    intro before after same
    exact absurd (by simp [same]) no_colon
  have found := Plain.word?_append solid inner stops
  have not_comment : c.headIs '#' = false := by
    obtain ⟨d, more, rfl⟩ := List.exists_cons_of_ne_nil hne
    have first : d ≠ '#' := by simpa using no_comment
    simp [at_word.headIs, first]
  have nonempty : word.isEmpty = false := by simpa using hne
  have ends : atWhite (':' :: x :: rest) = false := rfl
  rw [read?, readFrom]
  simp only [no_mark, not_comment, Bool.or_self, Bool.false_eq_true, if_false, at_word.rest, found,
    Option.bind_eq_bind, Option.bind_some, nonempty, after.rest, ends, List.isEmpty_cons,
    Bool.not_false, Bool.or_true, if_true, Option.pure_def]
  rfl

end Plain

/-! ## Plain texts -/

/-- Nothing in the text has a meaning of its own to a reader, apart from its first character. -/
structure Bland (text : Text) : Prop where
  printable : ∀ c ∈ text, isPrintable c
  no_break : ∀ c ∈ text, isBreak c = false
  no_value : ∀ b, [':', b] <:+: text → isWhite b = false
  no_comment : ∀ a, [a, '#'] <:+: text → isWhite a = false
  no_colon : text.getLast? ≠ some ':'
  no_space : text.getLast? ≠ some ' '

namespace Bland

variable {text before : Text}

theorem of_suffix (h : Bland (before ++ text)) (hne : text ≠ []) : Bland text := by
  have last : (before ++ text).getLast? = text.getLast? := by
    obtain ⟨front, last, rfl⟩ := List.eq_nil_or_concat text |>.resolve_left hne
    simp
  have inside : text <:+: before ++ text := (List.suffix_append before text).isInfix
  exact ⟨fun c hc => h.printable c (List.mem_append_right _ hc),
    fun c hc => h.no_break c (List.mem_append_right _ hc),
    fun b hb => h.no_value b (hb.trans inside), fun a ha => h.no_comment a (ha.trans inside),
    last ▸ h.no_colon, last ▸ h.no_space⟩

theorem eq_space_of_isWhite (h : Bland text) {c : Char} (hc : c ∈ text) (white : isWhite c) :
    c = ' ' := by
  rcases isBlankOrKept_of_isWhite white (h.printable c hc) with space | kept
  · exact space
  · have not_break := h.no_break c hc
    rw [kept.1] at not_break
    cases not_break

theorem word {word rest : Text} (h : Bland (word ++ rest)) (hne : word ≠ [])
    (solid : ∀ c ∈ word, isWhite c = false) (stops : ∀ c ∈ rest.head?, isWhite c)
    (start : word.head? ≠ some '#') : Plain.Word word := by
  refine ⟨hne, solid, start, fun colon => ?_⟩
  obtain ⟨front, rfl⟩ := List.getLast?_eq_some_iff.1 colon
  cases rest with
  | nil => exact h.no_colon (by simp)
  | cons b rest =>
    have white := stops b rfl
    rw [h.no_value b ⟨front, rest, by simp⟩] at white
    cases white

/-- White space inside a bland text is spaces before a word that is no comment. -/
theorem exists_spaces {white : Text} (h : Bland (before ++ white)) (hne : white ≠ [])
    (starts : ∀ c ∈ white.head?, isWhite c) : ∃ n text, white = spaces (n + 1) ++ text ∧ text ≠ [] ∧
      Unspaced text ∧ text.head? ≠ some '#' := by
  obtain ⟨k, text, rfl, stops⟩ := Yaml.exists_spaces white
  have only_spaces : ∀ c ∈ spaces k ++ text, isWhite c → c = ' ' := fun c hc =>
    h.eq_space_of_isWhite (List.mem_append_right before hc)
  obtain ⟨n, rfl⟩ : ∃ n, k = n + 1 := by
    refine Nat.exists_eq_succ_of_ne_zero ?_
    rintro rfl
    obtain ⟨c, more, rfl⟩ := List.exists_cons_of_ne_nil (show text ≠ [] from hne)
    exact stops c rfl (only_spaces c (by simp) (starts c rfl))
  refine ⟨n, text, rfl, ?_, fun c hc => ?_, fun comment => ?_⟩
  · rintro rfl
    exact h.no_space (by simp [spaces_concat])
  · by_cases white : isWhite c
    · exact absurd (only_spaces c (by simp [List.mem_of_mem_head? hc]) white) (stops c hc)
    · simpa using white
  · obtain ⟨more, rfl⟩ := List.head?_eq_some_iff.1 comment
    have pair := h.no_comment ' ' ⟨before ++ spaces n, more, by simp [spaces_concat]⟩
    exact absurd pair (by decide)

/-- A bland text that begins with a word is a sequence of words. -/
theorem words (h : Bland text) (hne : text ≠ []) (unspaced : Unspaced text)
    (start : text.head? ≠ some '#') : Plain.Words text := by
  -- the first word, the spaces after it and the rest, which is shorter
  obtain ⟨size, bound⟩ : ∃ size, text.length ≤ size := ⟨_, Nat.le_refl _⟩
  induction size generalizing text with
  | zero => exact absurd (List.length_eq_zero_iff.1 (Nat.le_zero.1 bound)) hne
  | succ size ih =>
    obtain ⟨word, rest, rfl, solid, stops⟩ := exists_run (!isWhite ·) text
    simp only [Bool.not_eq_true', Bool.not_eq_false'] at solid stops
    have word_ne : word ≠ [] := by
      rintro rfl
      obtain ⟨c, more, rfl⟩ := List.exists_cons_of_ne_nil hne
      have white := stops c rfl
      rw [unspaced_cons.1 unspaced] at white
      cases white
    rw [List.head?_append_of_ne_nil _ word_ne] at start
    have first := h.word word_ne solid stops start
    by_cases rest_ne : rest = []
    · subst rest_ne
      rw [List.append_nil]
      exact .word first
    obtain ⟨n, text, rfl, text_ne, text_unspaced, text_start⟩ := h.exists_spaces rest_ne stops
    have shorter : text.length ≤ size := by
      have pos := List.length_pos_iff.2 word_ne
      simp only [List.length_append] at bound
      omega
    rw [← List.append_assoc] at h
    exact .cons n first (ih (h.of_suffix text_ne) text_ne text_unspaced text_start shorter)

end Bland

/-- The text is read as a plain scalar where a scalar may stand. -/
structure IsPlainText (text : Text) : Prop where
  words : Plain.Words text
  no_indicator : ∀ c rest, text = c :: rest → isIndicator c = false
  no_mark : ∀ c rest, text = c :: rest → c = '-' ∨ c = '?' ∨ c = ':' → atWhite rest = false

theorem isPlainText_of_allowsPlain {text : Text} (h : allowsPlain text) (hne : text ≠ []) :
    IsPlainText text := by
  simp only [allowsPlain, hasIndicator, Bool.and_eq_true, Bool.not_eq_true', Bool.or_eq_false_iff,
    bne_iff_ne, ne_eq, List.any_eq_false, List.all_eq_true, Text.endsWith, beq_eq_false_iff_ne] at h
  obtain ⟨⟨⟨⟨start, no_space⟩, no_break⟩, printable⟩, ⟨⟨⟨⟨first, -⟩, -⟩, no_value⟩, no_colon⟩,
    no_comment⟩ := h
  have bland : Bland text := by
    refine ⟨printable, by simpa using no_break, fun b inside => ?_, fun a inside => ?_, no_colon,
      no_space⟩
    · exact hasPair_eq_false_iff.1 no_value ':' b inside (by simp)
    · by_cases white : isWhite a
      · have no_pair := hasPair_eq_false_iff.1 no_comment a '#' inside white
        simp at no_pair
      · simpa using white
  obtain ⟨c, rest, rfl⟩ := List.exists_cons_of_ne_nil hne
  simp only [Bool.or_eq_false_iff, Bool.and_eq_false_iff, beq_eq_false_iff_ne] at first
  have not_white : isWhite c = false := by
    by_cases white : isWhite c
    · exact absurd (bland.eq_space_of_isWhite List.mem_cons_self white) (by simpa using start)
    · simpa using white
  have not_comment : c ≠ '#' := by
    rintro rfl
    exact absurd first.1 (by decide)
  refine ⟨bland.words hne (unspaced_cons.2 not_white) (by simpa using not_comment), ?_, ?_⟩
  · intro d more same
    obtain ⟨rfl, rfl⟩ := List.cons.inj same
    exact first.1
  · intro d more same mark
    obtain ⟨rfl, rfl⟩ := List.cons.inj same
    rcases first.2 with not_mark | at_word
    · exfalso
      rcases mark with rfl | rfl | rfl <;> simp at not_mark
    · exact at_word

theorem isIndicator_eq_false_of_isAlphanum {c : Char} (h : c.isAlphanum) : isIndicator c = false := by
  have checked : "#,[]\x7b\x7d&*!|>'\"%@`".toList.all fun d => !d.isAlphanum := by decide +kernel
  by_cases indicator : isIndicator c
  · have no_letter := List.all_eq_true.1 checked c (List.contains_iff_mem.1 indicator)
    simp [h] at no_letter
  · simpa using indicator

theorem isWhite_eq_false_of_isAlphanum {c : Char} (h : c.isAlphanum) : isWhite c = false := by
  by_cases white : isWhite c
  · exfalso
    have of_code : ∀ n, (Char.ofNat n).isAlphanum = false → c.toNat ≠ n := by
      rintro n not_letter rfl
      rw [Char.ofNat_toNat, h] at not_letter
      cases not_letter
    simp only [isWhite, isSpaceOrTab, isBreak, Bool.or_eq_true, beq_iff_eq] at white
    rcases white with (rfl | rfl) | ((((rfl | rfl) | code) | code) | code)
    · exact absurd h (by decide)
    · exact absurd h (by decide)
    · exact absurd h (by decide)
    · exact absurd h (by decide)
    · exact of_code _ (by decide) code
    · exact of_code _ (by decide) code
    · exact of_code _ (by decide) code
  · simpa using white

theorem ne_of_isAlphanum {c d : Char} (h : c.isAlphanum) (other : d.isAlphanum = false) : c ≠ d := by
  rintro rfl
  rw [h] at other
  cases other

/-- ASCII letters and digits make a plain scalar. -/
theorem isPlainText_of_isAlphanum {text : Text} (hne : text ≠ [])
    (letters : ∀ c ∈ text, c.isAlphanum) : IsPlainText text := by
  have differs : ∀ c ∈ text, ∀ d : Char, d.isAlphanum = false → c ≠ d :=
    fun c hc _ other => ne_of_isAlphanum (letters c hc) other
  refine ⟨.word ⟨hne, fun c hc => isWhite_eq_false_of_isAlphanum (letters c hc), ?_, ?_⟩, ?_, ?_⟩
  · intro comment
    exact differs '#' (List.mem_of_mem_head? comment) '#' (by decide) rfl
  · intro colon
    exact differs ':' (List.mem_of_mem_getLast? colon) ':' (by decide) rfl
  · rintro c rest rfl
    exact isIndicator_eq_false_of_isAlphanum (letters c List.mem_cons_self)
  · rintro c rest rfl mark
    have others := differs c List.mem_cons_self
    rcases mark with mark | mark | mark
    · exact absurd mark (others '-' (by decide))
    · exact absurd mark (others '?' (by decide))
    · exact absurd mark (others ':' (by decide))

end ComponentForge.Yaml

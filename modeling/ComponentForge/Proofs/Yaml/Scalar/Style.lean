import ComponentForge.Proofs.Yaml.Scalar.Literal
import ComponentForge.Proofs.Yaml.Scalar.Plain
import ComponentForge.Proofs.Yaml.Scalar.Quoted

/-!
# The style of a scalar

What the choice of a style promises about the text, and which characters its scalar is printed with.
-/

namespace ComponentForge.Yaml

/-! ## Styles -/

/-- The text may be printed in the style. -/
def Style.Allows : Style → Text → Prop
  | .plain, text => isAmbiguous text = false ∧ allowsPlain text
  | .singleQuoted, text => '\n' ∉ text ∧ allowsSingleQuotes text
  | .doubleQuoted, _ => True
  | .literal, text => '\n' ∈ text ∧ allowsLiteral text
  | .folded, _ => False

theorem allows_styleOf (text : Text) : (styleOf text).Allows text := by
  by_cases feed : '\n' ∈ text
  · by_cases literal : allowsLiteral text
    · simp [styleOf, Style.Allows, feed, literal]
    · simp [styleOf, Style.Allows, feed, literal]
  · by_cases plain : isAmbiguous text = false ∧ allowsPlain text
    · simp [styleOf, Style.Allows, feed, plain]
    · have not_plain : (!isAmbiguous text && allowsPlain text) = false := by
        cases ambiguous : isAmbiguous text <;> simp_all
      by_cases single : allowsSingleQuotes text
      · simp [styleOf, Style.Allows, feed, not_plain, single]
      · simp [styleOf, Style.Allows, feed, not_plain, single]

theorem ne_nil_of_not_ambiguous {text : Text} (h : isAmbiguous text = false) : text ≠ [] := by
  rintro rfl
  cases h

/-- A text that is printed as it is is read as it is. -/
theorem isPlainText_of_allows {text : Text} (h : Style.plain.Allows text) : IsPlainText text :=
  isPlainText_of_allowsPlain h.2 (ne_nil_of_not_ambiguous h.1)

/-! ## Data -/

namespace Datum

/-- The style in which a datum is printed. -/
def style : Datum → Style
  | .string text => styleOf text
  | _ => .plain

/-- The text of the scalar that a datum is printed as. -/
def text : Datum → Text
  | .bool true => "true".toList
  | .bool false => "false".toList
  | .number n => Nat.toDigits 10 n
  | .string text => text

end Datum

theorem isPlainText_toDigits (n : Nat) : IsPlainText (Nat.toDigits 10 n) := by
  refine isPlainText_of_isAlphanum Nat.toDigits_ne_nil fun c hc => ?_
  have digit := Nat.isDigit_of_mem_toDigits (by decide) (by decide) hc
  simp [Char.isAlphanum, digit]

theorem isAlphanum_bool (b : Bool) : ∀ c ∈ (Datum.bool b).text, c.isAlphanum := by
  have letters : (Datum.bool b).text.all Char.isAlphanum := by cases b <;> decide
  exact List.all_eq_true.1 letters

theorem isPlainText_bool (b : Bool) : IsPlainText (Datum.bool b).text :=
  isPlainText_of_isAlphanum (by cases b <;> decide) (isAlphanum_bool b)

theorem printDatum_bool (indent : Nat) (b : Bool) : printDatum indent (.bool b) = (Datum.bool b).text := by
  cases b <;> rfl

/-! ## Characters -/

theorem isPrintable_of_isAlphanum {c : Char} (h : c.isAlphanum) : isPrintable c := by
  change (decide (65 ≤ c.toNat ∧ c.toNat ≤ 90) || (decide (97 ≤ c.toNat) && decide (c.toNat ≤ 122)) ||
    (decide (48 ≤ c.toNat) && decide (c.toNat ≤ 57))) = true at h
  simp only [Bool.or_eq_true, Bool.and_eq_true, decide_eq_true_eq] at h
  simp only [isPrintable, Bool.or_eq_true, Bool.and_eq_true, beq_iff_eq, decide_eq_true_eq]
  omega

theorem isAllowed_of_isPrintable {c : Char} (h : isPrintable c) : isAllowed c := by
  simp only [isPrintable, isAllowed, Bool.or_eq_true, Bool.and_eq_true, beq_iff_eq, bne_iff_ne,
    decide_eq_true_eq] at h ⊢
  omega

/-- All that is added to an indented text is spaces. -/
theorem mem_indented {n : Nat} {fresh : Bool} {text : Text} {c : Char} (h : c ∈ indented n fresh text) :
    c = ' ' ∨ c ∈ text := by
  induction text generalizing fresh with
  | nil => cases h
  | cons d text ih =>
    rw [indented] at h
    split at h
    · rcases List.mem_cons.1 h with rfl | h
      · exact Or.inr List.mem_cons_self
      · exact (ih h).imp_right (List.mem_cons_of_mem d)
    · rcases List.mem_append.1 h with h | h
      · split at h
        · exact Or.inl (mem_spaces h)
        · cases h
      · rcases List.mem_cons.1 h with rfl | h
        · exact Or.inr List.mem_cons_self
        · exact (ih h).imp_right (List.mem_cons_of_mem d)

theorem isPrintable_hex {width n : Nat} {d : Char} (h : d ∈ hex width n) : isPrintable d := by
  have digits : ∀ d : Fin 16, isPrintable (hexDigit d) := by decide +kernel
  induction width generalizing n with
  | zero => cases h
  | succ width ih =>
    rw [hex] at h
    rcases List.mem_append.1 h with h | h
    · exact ih h
    · rw [List.mem_singleton.1 h]
      exact digits ⟨n % 16, Nat.mod_lt n (by decide)⟩

theorem isPrintable_escape {c d : Char} (h : d ∈ escape c) : isPrintable d := by
  have mark : isPrintable '\\' := by decide
  rw [escape] at h
  split at h
  · rename_i letter found
    have shown : isPrintable letter := by
      rw [escapeLetter?] at found
      exact Quoted.forall_of_lookup (P := fun _ letter => isPrintable letter) (by decide +kernel) found
    rcases List.mem_cons.1 h with rfl | h
    · exact mark
    · rwa [List.mem_singleton.1 h]
  · have written : ∀ letter width, isPrintable letter → d ∈ '\\' :: letter :: hex width c.toNat →
        isPrintable d := by
      intro letter width shown h
      rcases List.mem_cons.1 h with rfl | h
      · exact mark
      · rcases List.mem_cons.1 h with rfl | h
        · exact shown
        · exact isPrintable_hex h
    split at h
    · exact written 'x' 2 (by decide) h
    · split at h
      · exact written 'u' 4 (by decide) h
      · exact written 'U' 8 (by decide) h

theorem isPrintable_doubleQuoted {text : Text} {c : Char} (h : c ∈ doubleQuoted text) : isPrintable c := by
  have quote : isPrintable '"' := by decide
  rw [Quoted.doubleQuoted_eq, Quoted.quote, Quoted.escaped] at h
  rcases List.mem_cons.1 h with rfl | h
  · exact quote
  rcases List.mem_append.1 h with h | h
  · obtain ⟨d, -, h⟩ := List.mem_flatMap.1 h
    rw [Quoted.shown] at h
    split at h
    · rename_i plain
      rw [List.mem_singleton.1 h]
      simp only [Bool.and_eq_true] at plain
      exact plain.1.1.1
    · exact isPrintable_escape h
  · rw [List.mem_singleton.1 h]
    exact quote

theorem isPrintable_singleQuoted {indent : Nat} {text : Text} {c : Char}
    (printable : ∀ d ∈ text, isPrintable d) (h : c ∈ singleQuoted indent text) : isPrintable c := by
  have quote : isPrintable '\'' := by decide
  have space : isPrintable ' ' := by decide
  rw [Quoted.singleQuoted_eq, Quoted.quote, Quoted.inner] at h
  rcases List.mem_cons.1 h with rfl | h
  · exact quote
  rcases List.mem_append.1 h with h | h
  · rcases List.mem_append.1 h with h | h
    · rcases mem_indented h with rfl | h
      · exact space
      · exact printable c (Quoted.mem_of_mem_doubled h)
    · rw [Quoted.closing] at h
      split at h
      · split at h
        · rwa [mem_spaces h]
        · cases h
      · cases h
  · rw [List.mem_singleton.1 h]
    exact quote

theorem isPrintable_literal {indent : Nat} {text : Text} {c : Char} (hne : text ≠ [])
    (printable : ∀ d ∈ text, isPrintable d) (h : c ∈ literal indent text) : isPrintable c := by
  have marks : ∀ d ∈ literalMarks text, isPrintable d := by
    intro d hd
    rw [Block.literalMarks_eq] at hd
    rcases List.mem_append.1 hd with hd | hd
    · obtain ⟨x, more, rfl⟩ := List.exists_cons_of_ne_nil hne
      rw [Block.indentationMark] at hd
      split at hd
      · rw [List.mem_singleton.1 hd]
        decide
      · cases hd
    · obtain ⟨chomping, mark⟩ := Block.exists_mark hne
      rw [mark] at hd
      cases chomping with
      | clip => cases hd
      | strip => rw [List.mem_singleton.1 hd]; decide
      | keep => rw [List.mem_singleton.1 hd]; decide
  rw [literal] at h
  rcases List.mem_append.1 h with h | h
  · rcases List.mem_cons.1 h with rfl | h
    · decide
    · exact marks c h
  · rcases List.mem_cons.1 h with rfl | h
    · decide
    · rcases mem_indented h with rfl | h
      · decide
      · exact printable c h

theorem isPrintable_printString {indent : Nat} {text : Text} {c : Char}
    (h : c ∈ printString indent text) : isPrintable c := by
  have allows := allows_styleOf text
  rw [printString] at h
  cases style : styleOf text with
  | plain =>
    simp only [style, Style.Allows, allowsPlain, Bool.and_eq_true, List.all_eq_true] at h allows
    exact allows.2.1.2 c h
  | singleQuoted =>
    simp only [style, Style.Allows, allowsSingleQuotes, Bool.and_eq_true, List.all_eq_true] at h allows
    exact isPrintable_singleQuoted allows.2.1.1 h
  | doubleQuoted =>
    simp only [style] at h
    exact isPrintable_doubleQuoted h
  | literal =>
    simp only [style, Style.Allows, allowsLiteral, Bool.and_eq_true, List.all_eq_true] at h allows
    exact isPrintable_literal (List.ne_nil_of_mem allows.1) allows.2.1.1 h
  | folded =>
    rw [style] at allows
    exact allows.elim

theorem isPrintable_printDatum {indent : Nat} {datum : Datum} {c : Char}
    (h : c ∈ printDatum indent datum) : isPrintable c := by
  cases datum with
  | string text => exact isPrintable_printString h
  | number n =>
    have digit := Nat.isDigit_of_mem_toDigits (by decide) (by decide) h
    exact isPrintable_of_isAlphanum (by simp [Char.isAlphanum, digit])
  | bool b =>
    rw [printDatum_bool] at h
    exact isPrintable_of_isAlphanum (isAlphanum_bool b c h)

/-! ## First characters -/

theorem IsPlainText.content {text : Text} (plain : IsPlainText text)
    (printable : ∀ c ∈ text, isPrintable c) : Content text := by
  obtain ⟨x, more, rfl⟩ := List.exists_cons_of_ne_nil plain.words.ne_nil
  intro c hc
  obtain rfl : x = c := by simpa using hc
  have no_indicator := plain.no_indicator x more rfl
  have shown := printable x List.mem_cons_self
  refine ⟨unspaced_cons.1 (plain.words.unspaced []), ?_, ?_⟩
  · rintro rfl
    exact absurd no_indicator (by decide)
  · rintro rfl
    exact absurd shown (by decide)

/-- A printed datum begins with a character that is not passed over. -/
theorem printDatum_begins (indent : Nat) (datum : Datum) :
    printDatum indent datum ≠ [] ∧ Content (printDatum indent datum) := by
  have plain : ∀ text, IsPlainText text → (∀ c ∈ text, isPrintable c) → text ≠ [] ∧ Content text :=
    fun text h printable => ⟨h.words.ne_nil, h.content printable⟩
  have quoted : ∀ x more, isWhite x = false ∧ x ≠ '#' ∧ x ≠ byteOrderMark →
      x :: more ≠ [] ∧ Content (x :: more) :=
    fun x more h => ⟨List.cons_ne_nil x more, content_cons.2 h⟩
  have printable : ∀ c ∈ printDatum indent datum, isPrintable c := fun c hc => isPrintable_printDatum hc
  cases datum with
  | number n => exact plain _ (isPlainText_toDigits n) printable
  | bool b => exact plain _ (printDatum_bool indent b ▸ isPlainText_bool b) printable
  | string text =>
    have allows := allows_styleOf text
    rw [printDatum, printString] at printable ⊢
    cases style : styleOf text with
    | plain =>
      simp only [style] at printable allows ⊢
      exact plain text (isPlainText_of_allows allows) printable
    | singleQuoted =>
      simp only
      rw [Quoted.singleQuoted_eq]
      exact quoted _ _ (by decide)
    | doubleQuoted => exact quoted _ _ (by decide)
    | literal => exact quoted _ _ (by decide)
    | folded =>
      rw [style] at allows
      exact allows.elim

end ComponentForge.Yaml

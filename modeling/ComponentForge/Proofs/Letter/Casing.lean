import ComponentForge.Casing
import ComponentForge.Proofs.Letter.NameLetter

/-!
# Casings leave name letters

Whatever a name is, its casings hold name letters only. The tables of the case mappings are
checked span by span: no image is blank, and an image that is an ASCII character is a letter.
-/

namespace ComponentForge

namespace Letter

/-- Code points of characters above ASCII, none of which is blank. -/
def clearOfBlanks (first last : Nat) : Bool :=
  128 ≤ first && (last < 0xD800 || (0xDFFF < first && last < 0x110000)) &&
    [(0x85, 0x85), (0xA0, 0xA0), (0x1680, 0x1680), (0x2000, 0x200A), (0x2028, 0x2029),
      (0x202F, 0x202F), (0x205F, 0x205F), (0x3000, 0x3000)].all fun blank =>
        last < blank.1 || blank.2 < first

/-- A span of name letters: clear of blanks, or a single character that is one. -/
def ofNameLetters (first last : Nat) : Bool :=
  clearOfBlanks first last || (first == last && isNameLetter (Char.ofNat first))

theorem isNameLetter_of_clearOfBlanks {first last n : Nat} (clear : clearOfBlanks first last)
    (hfirst : first ≤ n) (hlast : n ≤ last) : isNameLetter (Char.ofNat n) := by
  simp only [clearOfBlanks, List.all_cons, List.all_nil, Bool.and_eq_true, Bool.or_eq_true,
    decide_eq_true_eq] at clear
  have valid : n.isValidChar := by
    simp only [Nat.isValidChar]
    omega
  have code : (Char.ofNat n).toNat = n := by
    rw [Char.ofNat, dif_pos valid]
    rfl
  simp only [isNameLetter, isBlank, code, Bool.and_eq_true, Bool.not_eq_true', Bool.or_eq_false_iff,
    Bool.and_eq_false_iff, decide_eq_false_iff_not, beq_eq_false_iff_ne, Bool.or_eq_true,
    decide_eq_true_eq]
  omega

theorem isNameLetter_of_ofNameLetters {first last n : Nat} (letters : ofNameLetters first last)
    (hfirst : first ≤ n) (hlast : n ≤ last) : isNameLetter (Char.ofNat n) := by
  simp only [ofNameLetters, Bool.or_eq_true, Bool.and_eq_true, beq_iff_eq] at letters
  rcases letters with clear | ⟨rfl, letter⟩
  · exact isNameLetter_of_clearOfBlanks clear hfirst hlast
  · obtain rfl : first = n := by omega
    exact letter

theorem alphanumericSpans_letters :
    alphanumericSpans.all (fun span => ofNameLetters span.first span.last) := by
  decide +kernel

def imageOfLetters (shift : Shift) : Bool :=
  ofNameLetters (shift.span.first + shift.distance).toNat (shift.span.last + shift.distance).toNat

def expandsToLetters (expansion : Nat × List Nat) : Bool :=
  expansion.2.all fun n => isNameLetter (Char.ofNat n)

theorem lowerShifts_letters : lowerShifts.all imageOfLetters := by
  decide +kernel

theorem upperShifts_letters : upperShifts.all imageOfLetters := by
  decide +kernel

theorem lowerExpansions_letters : lowerExpansions.all expandsToLetters := by
  decide +kernel

theorem upperExpansions_letters : upperExpansions.all expandsToLetters := by
  decide +kernel

theorem isNameLetter_of_isAlphanum : ∀ n : Fin 128, (Char.ofNat n).isAlphanum →
    isNameLetter (Char.ofNat n) ∧ isNameLetter (Char.ofNat n).toLower ∧
      isNameLetter (Char.ofNat n).toUpper := by
  decide +kernel

theorem letters_of_isAscii {c : Char} (ascii : isAscii c) (h : c.isAlphanum) :
    isNameLetter c ∧ isNameLetter c.toLower ∧ isNameLetter c.toUpper := by
  have small : c.toNat < 128 := by simpa [isAscii] using ascii
  have checked := isNameLetter_of_isAlphanum ⟨c.toNat, small⟩
  rw [Char.ofNat_toNat] at checked
  exact checked h

theorem isNameLetter_of_isAlphanumeric {c : Char} (h : isAlphanumeric c) : isNameLetter c := by
  by_cases ascii : isAscii c
  · rw [isAlphanumeric, if_pos ascii] at h
    exact (letters_of_isAscii ascii h).1
  · rw [isAlphanumeric, if_neg ascii, inSpans, List.any_eq_true] at h
    obtain ⟨span, hspan, hc⟩ := h
    simp only [Span.has, Bool.and_eq_true, decide_eq_true_eq] at hc
    have letters := List.all_eq_true.1 alphanumericSpans_letters span hspan
    rw [← Char.ofNat_toNat c]
    exact isNameLetter_of_ofNameLetters letters hc.1.1 hc.1.2

theorem isNameLetter_mapped {shifts : List Shift} {expansions : List (Nat × List Nat)} {c d : Char}
    (hshifts : shifts.all imageOfLetters) (hexpansions : expansions.all expandsToLetters)
    (hc : isNameLetter c) (hd : d ∈ mapped shifts expansions c) : isNameLetter d := by
  unfold mapped at hd
  split at hd
  · rename_i code n more found
    have letters := List.all_eq_true.1 hexpansions _ (List.mem_of_find?_eq_some found)
    rw [expandsToLetters, List.all_eq_true] at letters
    rw [← List.map_cons] at hd
    obtain ⟨m, hm, rfl⟩ := List.mem_map.1 hd
    exact letters m hm
  · split at hd
    · rename_i shift found
      have letters := List.all_eq_true.1 hshifts shift (List.mem_of_find?_eq_some found)
      have inside := List.find?_some found
      simp only [Span.has, Bool.and_eq_true, decide_eq_true_eq] at inside
      obtain rfl := List.mem_singleton.1 hd
      exact isNameLetter_of_ofNameLetters letters (by omega) (by omega)
    · obtain rfl := List.mem_singleton.1 hd
      exact hc

theorem isNameLetter_lower {c d : Char} (h : isAlphanumeric c) (hd : d ∈ lower c) :
    isNameLetter d := by
  rw [lower] at hd
  split at hd
  · rename_i ascii
    rw [isAlphanumeric, if_pos ascii] at h
    exact List.mem_singleton.1 hd ▸ (letters_of_isAscii ascii h).2.1
  · exact isNameLetter_mapped lowerShifts_letters lowerExpansions_letters
      (isNameLetter_of_isAlphanumeric h) hd

theorem isNameLetter_upper {c d : Char} (h : isAlphanumeric c) (hd : d ∈ upper c) :
    isNameLetter d := by
  rw [upper] at hd
  split at hd
  · rename_i ascii
    rw [isAlphanumeric, if_pos ascii] at h
    exact List.mem_singleton.1 hd ▸ (letters_of_isAscii ascii h).2.2
  · exact isNameLetter_mapped upperShifts_letters upperExpansions_letters
      (isNameLetter_of_isAlphanumeric h) hd

end Letter

namespace Casing

theorem mem_of_mem_pieces {isBoundary : Char → Bool} {text piece : Text} {c : Char}
    (hpiece : piece ∈ text.pieces isBoundary) (hc : c ∈ piece) : isBoundary c = false := by
  induction text generalizing piece with
  | nil =>
    obtain rfl := List.mem_singleton.1 hpiece
    simp at hc
  | cons d rest ih =>
    rw [Text.pieces] at hpiece
    split at hpiece
    · rcases List.mem_cons.1 hpiece with rfl | hpiece
      · simp at hc
      · exact ih hpiece hc
    · rename_i inner
      split at hpiece
      · obtain rfl := List.mem_singleton.1 hpiece
        obtain rfl := List.mem_singleton.1 hc
        simpa using inner
      · rename_i first more heq
        rcases List.mem_cons.1 hpiece with rfl | hpiece
        · rcases List.mem_cons.1 hc with rfl | hc
          · simpa using inner
          · exact ih (heq ▸ List.mem_cons_self) hc
        · exact ih (heq ▸ List.mem_cons_of_mem _ hpiece) hc

/-- The words of a run hold the characters of the run. -/
theorem mem_of_mem_wordsFrom {mode : Mode} {word run found : Text} {c : Char}
    (hfound : found ∈ wordsFrom mode word run) (hc : c ∈ found) : c ∈ word ++ run := by
  fun_induction wordsFrom mode word run with
  | case1 => simp at hfound
  | case2 => simp_all
  | case3 => simp_all
  | case4 mode word d next rest boundary ih =>
    rcases List.mem_cons.1 hfound with rfl | hfound
    · rcases List.mem_append.1 hc with hc | hc <;> simp_all
    · have inside : c ∈ next :: rest := ih hfound
      exact List.mem_append_right _ (List.mem_cons_of_mem _ inside)
  | case5 mode word d next rest _ boundary ih =>
    rcases List.mem_cons.1 hfound with rfl | hfound
    · exact List.mem_append_left _ hc
    · have inside : c ∈ [d] ++ next :: rest := ih hfound
      exact List.mem_append_right _ inside
  | case6 mode word d next rest _ _ ih =>
    have inside := ih hfound
    rwa [List.append_assoc] at inside

theorem isAlphanumeric_of_mem_words {name word : Text} {c : Char} (hword : word ∈ words name)
    (hc : c ∈ word) : Letter.isAlphanumeric c := by
  obtain ⟨piece, hpiece, hword⟩ := List.mem_flatMap.1 hword
  have inside : c ∈ piece := mem_of_mem_wordsFrom hword hc
  simpa using mem_of_mem_pieces hpiece inside

theorem isNameLetter_lowered {word : Text} (h : ∀ c ∈ word, Letter.isAlphanumeric c) {d : Char}
    (hd : d ∈ lowered word) : isNameLetter d := by
  fun_induction lowered word with
  | case1 => simp at hd
  | case2 =>
    obtain rfl := List.mem_singleton.1 hd
    decide
  | case3 c rest _ ih =>
    rcases List.mem_append.1 hd with hd | hd
    · exact Letter.isNameLetter_lower (h c List.mem_cons_self) hd
    · exact ih (fun e he => h e (List.mem_cons_of_mem _ he)) hd

theorem isNameLetter_capitalized {word : Text} (h : ∀ c ∈ word, Letter.isAlphanumeric c)
    {d : Char} (hd : d ∈ capitalized word) : isNameLetter d := by
  cases word with
  | nil => simp [capitalized] at hd
  | cons c rest =>
    rcases List.mem_append.1 hd with hd | hd
    · exact Letter.isNameLetter_upper (h c List.mem_cons_self) hd
    · exact isNameLetter_lowered (fun e he => h e (List.mem_cons_of_mem _ he)) hd

theorem mem_join {separator : Text} {pieces : List Text} {c : Char}
    (hc : c ∈ Text.join separator pieces) : c ∈ separator ∨ ∃ piece ∈ pieces, c ∈ piece := by
  fun_induction Text.join separator pieces with
  | case1 => simp at hc
  | case2 piece => exact Or.inr ⟨piece, List.mem_cons_self, hc⟩
  | case3 piece more _ ih =>
    rcases List.mem_append.1 hc with hc | hc
    · rcases List.mem_append.1 hc with hc | hc
      · exact Or.inr ⟨piece, List.mem_cons_self, hc⟩
      · exact Or.inl hc
    · rcases ih hc with hc | ⟨other, hother, hc⟩
      · exact Or.inl hc
      · exact Or.inr ⟨other, List.mem_cons_of_mem _ hother, hc⟩

/-- A casing writes name letters only. -/
theorem isNameLetter_apply (casing : Casing) (name : Text) :
    ∀ c ∈ casing.apply name, isNameLetter c := by
  have alphanumeric := fun word (hword : word ∈ words name) (c : Char) (hc : c ∈ word) =>
    isAlphanumeric_of_mem_words hword hc
  rw [apply]
  generalize words name = ws at alphanumeric
  have low : ∀ w ∈ ws, ∀ c ∈ lowered w, isNameLetter c :=
    fun w hw c hc => isNameLetter_lowered (alphanumeric w hw) hc
  have capital : ∀ more : List Text, (∀ w ∈ more, w ∈ ws) → ∀ c ∈ more.flatMap capitalized,
      isNameLetter c := by
    intro more hmore c hc
    obtain ⟨w, hw, hc⟩ := List.mem_flatMap.1 hc
    exact isNameLetter_capitalized (alphanumeric w (hmore w hw)) hc
  intro c hc
  cases casing with
  | snake =>
    rcases mem_join hc with hc | ⟨piece, hpiece, hc⟩
    · obtain rfl := List.mem_singleton.1 hc
      decide
    · obtain ⟨w, hw, rfl⟩ := List.mem_map.1 hpiece
      exact low w hw c hc
  | upperCamel => exact capital ws (fun _ hw => hw) c hc
  | camel =>
    cases ws with
    | nil => simp [write] at hc
    | cons w ws =>
      rcases List.mem_append.1 hc with hc | hc
      · exact low w List.mem_cons_self c hc
      · exact capital ws (fun _ hw => List.mem_cons_of_mem _ hw) c hc

end Casing

end ComponentForge

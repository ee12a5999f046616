import ComponentForge.Proofs.Letter.Words
import Mathlib.Data.List.Basic

/-!
# Names in snake case

Snake case writes the words of an ASCII name in lower case with underscores between them. No word
boundary lies inside such a word, and an underscore is one, so that the words are read back as they
were written. Every casing of the name is then the same as that of the name it was made from.
-/

namespace ComponentForge

namespace Letter

/-- What becomes of an ASCII letter or digit in lower case, and what it has in common with it. -/
theorem toLower_ascii : ∀ n : Fin 128, (Char.ofNat n).isAlphanum →
    isAscii (Char.ofNat n).toLower ∧ (Char.ofNat n).toLower.isAlphanum ∧
      (Char.ofNat n).toLower.isUpper = false ∧
      (Char.ofNat n).toLower.toLower = (Char.ofNat n).toLower ∧
      (Char.ofNat n).toLower.toUpper = (Char.ofNat n).toUpper := by
  decide +kernel

/-- The character is an ASCII letter or digit. -/
def IsPlain (c : Char) : Prop :=
  isAscii c ∧ isAlphanumeric c

variable {c : Char}

theorem IsPlain.toLower (h : IsPlain c) : IsPlain c.toLower ∧ isUpper c.toLower = false ∧
    c.toLower.toLower = c.toLower ∧ c.toLower.toUpper = c.toUpper := by
  obtain ⟨ascii, alphanumeric⟩ := h
  rw [isAlphanumeric, if_pos ascii] at alphanumeric
  have small : c.toNat < 128 := by simpa [isAscii] using ascii
  have checked := toLower_ascii ⟨c.toNat, small⟩
  rw [Char.ofNat_toNat] at checked
  obtain ⟨ascii', alphanum', not_upper, twice, upper⟩ := checked alphanumeric
  refine ⟨⟨ascii', isAlphanumeric_of_isAlphanum ascii' alphanum'⟩, ?_, twice, upper⟩
  rw [isUpper, if_pos ascii', not_upper]

theorem IsPlain.lower (h : IsPlain c) : lower c = [c.toLower] :=
  if_pos h.1

theorem IsPlain.upper (h : IsPlain c) : upper c = [c.toUpper] :=
  if_pos h.1

theorem IsPlain.ne_sigma (h : IsPlain c) : c ≠ 'Σ' := by
  rintro rfl
  exact absurd h.1 (by decide)

end Letter

namespace Casing

variable {word : Text}

theorem lowered_of_plain (h : ∀ c ∈ word, Letter.IsPlain c) : lowered word = word.map Char.toLower := by
  fun_induction lowered word with
  | case1 => rfl
  | case2 => exact absurd rfl (h 'Σ' List.mem_cons_self).ne_sigma
  | case3 c rest _ ih =>
    rw [(h c List.mem_cons_self).lower, ih fun d hd => h d (List.mem_cons_of_mem _ hd)]
    rfl

theorem plain_of_mem_lowered (h : ∀ c ∈ word, Letter.IsPlain c) {c : Char} (hc : c ∈ lowered word) :
    Letter.IsPlain c ∧ Letter.isUpper c = false := by
  rw [lowered_of_plain h] at hc
  obtain ⟨d, hd, rfl⟩ := List.mem_map.1 hc
  exact ⟨(h d hd).toLower.1, (h d hd).toLower.2.1⟩

theorem lowered_lowered (h : ∀ c ∈ word, Letter.IsPlain c) : lowered (lowered word) = lowered word := by
  rw [lowered_of_plain fun c hc => (plain_of_mem_lowered h hc).1, lowered_of_plain h, List.map_map]
  exact List.map_congr_left fun c hc => (h c hc).toLower.2.2.1

theorem capitalized_lowered (h : ∀ c ∈ word, Letter.IsPlain c) :
    capitalized (lowered word) = capitalized word := by
  cases word with
  | nil => rfl
  | cons c rest =>
    have first := h c List.mem_cons_self
    have others := fun d hd => h d (List.mem_cons_of_mem c hd)
    have split : lowered (c :: rest) = c.toLower :: lowered rest := by
      rw [lowered_of_plain h, lowered_of_plain others, List.map_cons]
    rw [split, capitalized, capitalized, first.upper, first.toLower.1.upper, first.toLower.2.2.2,
      lowered_lowered others]

/-- A word ends only where a capital follows, so a run without capitals is one word. -/
theorem wordsFrom_of_no_upper (mode : Mode) (word : Text) {run : Text} (hne : run ≠ [])
    (h : ∀ c ∈ run, Letter.isUpper c = false) : wordsFrom mode word run = [word ++ run] := by
  fun_induction wordsFrom mode word run with
  | case1 => exact absurd rfl hne
  | case2 => exact absurd rfl hne
  | case3 => rfl
  | case4 mode word c next rest boundary _ =>
    have capital := h next (List.mem_cons_of_mem _ List.mem_cons_self)
    rw [boundary.2] at capital
    exact absurd capital (by simp)
  | case5 mode word c next rest _ boundary _ =>
    have capital := h c List.mem_cons_self
    rw [boundary.2.1] at capital
    exact absurd capital (by simp)
  | case6 mode word c next rest _ _ ih =>
    rw [ih (List.cons_ne_nil _ _) fun d hd => h d (List.mem_cons_of_mem _ hd), List.append_assoc]
    rfl

/-- A word is cut off before a capital only if another capital is in it. -/
theorem ne_nil_of_mem_wordsFrom {mode : Mode} {word run found : Text}
    (started : mode = .upper → word ≠ []) (hfound : found ∈ wordsFrom mode word run) : found ≠ [] := by
  fun_induction wordsFrom mode word run with
  | case1 => simp at hfound
  | case2 mode word hne =>
    obtain rfl := List.mem_singleton.1 hfound
    simpa using hne
  | case3 =>
    obtain rfl := List.mem_singleton.1 hfound
    simp
  | case4 mode word c next rest _ ih =>
    rcases List.mem_cons.1 hfound with rfl | hfound
    · simp
    · exact ih (by simp) hfound
  | case5 mode word c next rest _ boundary ih =>
    rcases List.mem_cons.1 hfound with rfl | hfound
    · exact started boundary.1
    · exact ih (by simp) hfound
  | case6 mode word c next rest _ _ ih => exact ih (by simp) hfound

theorem ne_nil_of_mem_words {name word : Text} (h : word ∈ words name) : word ≠ [] := by
  obtain ⟨piece, -, hword⟩ := List.mem_flatMap.1 h
  exact ne_nil_of_mem_wordsFrom (by simp) hword

/-- Words of an ASCII name hold ASCII letters and digits. -/
theorem plain_of_mem_words {name word : Text} (ascii : ∀ c ∈ name, Letter.isAscii c)
    (h : word ∈ words name) : ∀ c ∈ word, Letter.IsPlain c := by
  intro c hc
  refine ⟨ascii c ?_, isAlphanumeric_of_mem_words h hc⟩
  have inside : c ∈ (words name).flatten := List.mem_flatten.2 ⟨word, h, hc⟩
  rw [words_flatten] at inside
  exact List.mem_of_mem_filter inside

/-- The pieces between underscores are what was joined with them. -/
theorem pieces_join {isBoundary : Char → Bool} {separator : Char} (boundary : isBoundary separator)
    {ws : List Text} (hne : ws ≠ []) (h : ∀ w ∈ ws, ∀ c ∈ w, isBoundary c = false) :
    (Text.join [separator] ws).pieces isBoundary = ws := by
  have single : ∀ w : Text, (∀ c ∈ w, isBoundary c = false) → w.pieces isBoundary = [w] := by
    intro w inner
    induction w with
    | nil => rfl
    | cons c rest ih =>
      rw [Text.pieces, inner c List.mem_cons_self, ih fun d hd => inner d (List.mem_cons_of_mem _ hd)]
      rfl
  have first : ∀ w rest : Text, (∀ c ∈ w, isBoundary c = false) →
      (w ++ separator :: rest).pieces isBoundary = w :: rest.pieces isBoundary := by
    intro w rest inner
    induction w with
    | nil => simp [Text.pieces, boundary]
    | cons c more ih =>
      rw [List.cons_append, Text.pieces, inner c List.mem_cons_self,
        ih fun d hd => inner d (List.mem_cons_of_mem _ hd)]
      rfl
  fun_induction Text.join [separator] ws with
  | case1 => exact absurd rfl hne
  | case2 w => exact single w (h w List.mem_cons_self)
  | case3 w more more_ne ih =>
    rw [List.append_assoc, List.singleton_append, first _ _ (h w List.mem_cons_self),
      ih more_ne fun v hv => h v (List.mem_cons_of_mem _ hv)]

variable {name : Text}

/-- The words of a snake-case name are the words it was made of. -/
theorem words_snake (ascii : ∀ c ∈ name, Letter.isAscii c) :
    words (snake.apply name) = (words name).map lowered := by
  have plain := fun word (hword : word ∈ words name) => plain_of_mem_words ascii hword
  have ne_nil := fun word (hword : word ∈ words name) => ne_nil_of_mem_words hword
  rw [apply, write]
  generalize words name = ws at plain ne_nil
  cases ws with
  | nil => rfl
  | cons first more =>
    have letters : ∀ w ∈ (first :: more).map lowered, ∀ c ∈ w, (!Letter.isAlphanumeric c) = false := by
      intro w hw c hc
      obtain ⟨word, hword, rfl⟩ := List.mem_map.1 hw
      simp [(plain_of_mem_lowered (plain word hword) hc).1.2]
    rw [words, pieces_join (by decide) (by simp) letters]
    have one_word : ∀ word ∈ first :: more, wordsFrom .start [] (lowered word) = [lowered word] :=
      fun word hword => wordsFrom_of_no_upper .start [] (lowered_ne_nil (ne_nil word hword))
        fun c hc => (plain_of_mem_lowered (plain word hword) hc).2
    rw [List.flatMap_map, List.flatMap_congr one_word, List.map_eq_flatMap]

/-- Every casing of an ASCII name can be made from its snake case. -/
theorem apply_snake (casing : Casing) (ascii : ∀ c ∈ name, Letter.isAscii c) :
    casing.apply (snake.apply name) = casing.apply name := by
  rw [apply, words_snake ascii, apply]
  have plain := fun word (hword : word ∈ words name) => plain_of_mem_words ascii hword
  generalize words name = ws at plain
  have low : (ws.map lowered).map lowered = ws.map lowered := by
    rw [List.map_map]
    exact List.map_congr_left fun word hword => lowered_lowered (plain word hword)
  have capitals : ∀ more : List Text, (∀ word ∈ more, word ∈ ws) →
      (more.map lowered).flatMap capitalized = more.flatMap capitalized := by
    intro more inside
    rw [List.flatMap_map]
    exact List.flatMap_congr fun word hword => capitalized_lowered (plain word (inside word hword))
  cases casing with
  | snake => rw [write, write, low]
  | upperCamel => exact capitals ws fun _ hword => hword
  | camel =>
    cases ws with
    | nil => rfl
    | cons first more =>
      rw [List.map_cons, write, write, lowered_lowered (plain first List.mem_cons_self),
        capitals more fun _ hword => List.mem_cons_of_mem _ hword]

end Casing

end ComponentForge

import ComponentForge.Text.Blank

/-!
# Name letters

The characters that casings leave in identifiers and file names. Of the ASCII characters these are
the letters, the digits and the underscore, so that no punctuation of an index file or of a path is
one of them.
-/

namespace ComponentForge

def isNameLetter (c : Char) : Bool :=
  !isBlank c && (c.isAlphanum || c == '_' || 128 ≤ c.toNat)

theorem nonblank_of_isNameLetter {c : Char} (h : isNameLetter c) : isBlank c = false := by
  simp only [isNameLetter, Bool.and_eq_true, Bool.not_eq_true'] at h
  exact h.1

/-- A nonempty text of name letters. -/
structure IsWord (text : Text) : Prop where
  ne_nil : text ≠ []
  letters : ∀ c ∈ text, isNameLetter c

namespace IsWord

variable {word : Text}

theorem notMem (h : IsWord word) {c : Char} (hc : isNameLetter c = false) : c ∉ word := by
  intro hmem
  rw [h.letters c hmem] at hc
  exact absurd hc (by simp)

theorem nonblank (h : IsWord word) {c : Char} (hc : c ∈ word) : isBlank c = false :=
  nonblank_of_isNameLetter (h.letters c hc)

theorem append {more : Text} (h : IsWord word) (hmore : more.all isNameLetter) :
    IsWord (word ++ more) where
  ne_nil := by simp [h.ne_nil]
  letters c hc := (List.mem_append.1 hc).elim (h.letters c) (List.all_eq_true.1 hmore c)

end IsWord

end ComponentForge

import Mathlib.Data.Prod.Lex
import ComponentForge.Proofs.Text.Bytes

/-!
# Positions in reading order

A place of a text is named by an offset on a character boundary or by a position. Positions are
ordered by their lines and, within a line, by their columns. Every character moves a position forward
in this order, so later offsets have later positions; and the position of an offset before the end
of the text points back to this offset.
-/

namespace ComponentForge

namespace Text

/-- The offset lies between two characters or at an end of the text. -/
def IsBoundary (text : Text) (offset : Nat) : Prop :=
  ∃ before after, text = before ++ after ∧ byteSize before = offset

theorem isBoundary_iff_isSome {text : Text} {offset : Nat} :
    IsBoundary text offset ↔ (splitAtByte? offset text).isSome := by
  rw [Option.isSome_iff_exists, Prod.exists]
  simp only [splitAtByte?_eq_some_iff]
  rfl

instance (text : Text) (offset : Nat) : Decidable (IsBoundary text offset) :=
  decidable_of_iff _ isBoundary_iff_isSome.symm

/-- Two boundaries cut the text into three parts, with some character between them. -/
theorem IsBoundary.exists_between {text : Text} {a b : Nat} (ha : IsBoundary text a)
    (hb : IsBoundary text b) (lt : a < b) : ∃ before passed after,
      text = before ++ (passed ++ after) ∧ byteSize before = a ∧ byteSize (before ++ passed) = b ∧
        passed ≠ [] := by
  obtain ⟨before, rest, rfl, rfl⟩ := ha
  obtain ⟨until_b, after, whole, rfl⟩ := hb
  rcases List.append_eq_append_iff.1 whole with ⟨passed, rfl, rfl⟩ | ⟨excess, rfl, -⟩
  · refine ⟨before, passed, after, rfl, rfl, rfl, ?_⟩
    rintro rfl
    rw [List.append_nil] at lt
    exact absurd lt (Nat.lt_irrefl _)
  · -- the earlier offset would stand behind the later one
    rw [byteSize_append] at lt
    omega

end Text

namespace Position

open Text

/-- Lines come first; columns decide within a line. -/
def key (p : Position) : ℕ ×ₗ ℕ :=
  toLex (p.line, p.column)

theorem key_injective : Function.Injective key := by
  intro p q same
  obtain ⟨line, column⟩ := Prod.mk.inj (toLex.injective same)
  cases p
  cases q
  exact congr (congrArg Position.mk line) column

instance : LinearOrder Position :=
  LinearOrder.lift' key key_injective

theorem lt_iff {p q : Position} :
    p < q ↔ p.line < q.line ∨ p.line = q.line ∧ p.column < q.column :=
  Prod.Lex.toLex_lt_toLex

/-- Each character moves the position forward. -/
theorem lt_advance (p : Position) (c : Char) : p < p.advance c := by
  rw [lt_iff, advance]
  split
  · exact Or.inl (Nat.lt_succ_self p.line)
  · exact Or.inr ⟨rfl, Nat.lt_add_of_pos_right c.utf8Size_pos⟩

theorem le_foldl_advance (p : Position) (passed : Text) : p ≤ passed.foldl advance p := by
  induction passed generalizing p with
  | nil => exact le_refl p
  | cons c passed ih => exact (lt_advance p c).le.trans (ih (p.advance c))

/-- A longer part of the text ends at a later position. -/
theorem after_lt_after_append (before : Text) {passed : Text} (some_passed : passed ≠ []) :
    after before < after (before ++ passed) := by
  obtain ⟨c, passed, rfl⟩ := List.exists_cons_of_ne_nil some_passed
  calc after before
      < (after before).advance c := lt_advance _ c
    _ ≤ passed.foldl advance ((after before).advance c) := le_foldl_advance _ passed
    _ = after (before ++ c :: passed) := (after_append before (c :: passed)).symm

theorem ofOffset?_eq_some_iff {text : Text} {offset : Nat} {p : Position} :
    ofOffset? text offset = some p ↔ IsBoundary text offset ∧ p = ofByte (bytes text) offset := by
  simp only [ofOffset?, Option.map_eq_some_iff, Prod.exists, splitAtByte?_eq_some_iff]
  constructor
  · rintro ⟨before, rest, ⟨rfl, rfl⟩, rfl⟩
    exact ⟨⟨before, rest, rfl, rfl⟩, (ofByte_byteSize before rest).symm⟩
  · rintro ⟨⟨before, rest, rfl, rfl⟩, rfl⟩
    exact ⟨before, rest, ⟨rfl, rfl⟩, (ofByte_byteSize before rest).symm⟩

/-- The position of an offset before the end of the text points to this offset. -/
theorem offset?_ofByte {text : Text} {offset : Nat} (boundary : IsBoundary text offset)
    (inside : offset < byteSize text) : (ofByte (bytes text) offset).offset? text = some offset := by
  obtain ⟨before, rest, rfl, rfl⟩ := boundary
  obtain ⟨start, starts, reaches⟩ := exists_startsLine before rest
  rw [← reaches] at inside
  rw [ofByte_byteSize, ← reaches]
  exact offset?_of_startsLine starts inside

theorem ofByte_lt_ofByte {text : Text} {a b : Nat} (ha : IsBoundary text a) (hb : IsBoundary text b)
    (lt : a < b) : ofByte (bytes text) a < ofByte (bytes text) b := by
  obtain ⟨before, passed, rest, rfl, rfl, rfl, some_passed⟩ := ha.exists_between hb lt
  have later := ofByte_byteSize (before ++ passed) rest
  rw [List.append_assoc] at later
  rw [ofByte_byteSize, later]
  exact after_lt_after_append before some_passed

/-- Two offsets are on one line unless a line feed stands between them. -/
theorem ofByte_line_eq_iff {bytes : List UInt8} {a b : Nat} (h : a ≤ b) :
    (ofByte bytes a).line = (ofByte bytes b).line ↔ '\n'.toUInt8 ∉ (bytes.take b).drop a := by
  rw [ofByte_line_add bytes h, ← List.count_eq_zero]
  omega

/-- Offsets and positions correspond: the position of an offset points back to it, and the positions
of two offsets are in the order of the offsets, on one line exactly if no line feed stands in the bytes
from the first offset up to the second. -/
theorem offsets_correspond (text : Text) :
    (∀ offset, IsBoundary text offset → offset < byteSize text →
      (ofOffset? text offset).bind (offset? text) = some offset) ∧
    ∀ a b, IsBoundary text a → IsBoundary text b → a < b →
      ∃ p q, ofOffset? text a = some p ∧ ofOffset? text b = some q ∧ p < q ∧
        (p.line = q.line ↔ '\n'.toUInt8 ∉ ((bytes text).take b).drop a) := by
  constructor
  · intro offset boundary inside
    rw [ofOffset?_eq_some_iff.2 ⟨boundary, rfl⟩, Option.bind_some]
    exact offset?_ofByte boundary inside
  · intro a b ha hb lt
    exact ⟨_, _, ofOffset?_eq_some_iff.2 ⟨ha, rfl⟩, ofOffset?_eq_some_iff.2 ⟨hb, rfl⟩,
      ofByte_lt_ofByte ha hb lt, ofByte_line_eq_iff lt.le⟩

/-- A letter of two bytes, a carriage return, two line feeds, a letter of four bytes and one more. -/
def brokenLines : Text :=
  "é\r\n\n😀x".toList

/-- An offset on a line feed at the start of a line, and the way from one line feed to the end. -/
theorem offsets_correspond_brokenLines :
    (IsBoundary brokenLines 4 ∧ 4 < byteSize brokenLines ∧
      (ofOffset? brokenLines 4).bind (offset? brokenLines) = some 4) ∧
    IsBoundary brokenLines 3 ∧ IsBoundary brokenLines 10 ∧
      ∃ p q, ofOffset? brokenLines 3 = some p ∧ ofOffset? brokenLines 10 = some q ∧ p < q ∧
        (p.line = q.line ↔ '\n'.toUInt8 ∉ ((bytes brokenLines).take 10).drop 3) := by
  obtain ⟨back, order⟩ := offsets_correspond brokenLines
  have at_start : IsBoundary brokenLines 4 := by decide +kernel
  have inside : 4 < byteSize brokenLines := by decide +kernel
  have on_feed : IsBoundary brokenLines 3 := by decide +kernel
  have at_end : IsBoundary brokenLines 10 := by decide +kernel
  exact ⟨⟨at_start, inside, back 4 at_start inside⟩, on_feed, at_end,
    order 3 10 on_feed at_end (by decide)⟩

end Position

end ComponentForge

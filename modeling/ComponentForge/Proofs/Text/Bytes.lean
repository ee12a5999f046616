import Mathlib.Data.List.Induction
import ComponentForge.Position
import ComponentForge.Proofs.Text.Split

/-!
# Texts as bytes

In the UTF-8 encoding the byte of an ASCII character stands for this character alone, never for a
part of another one. So such characters can be searched and counted among the bytes: an offset of
one splits the text, and any number of first bytes holds as many of them as some first characters.
The lines and the positions of a text are told from the line feeds among its bytes.
-/

namespace ComponentForge

namespace Text

/-- The UTF-8 encoding. -/
def bytes (text : Text) : List UInt8 :=
  text.flatMap String.utf8EncodeChar

theorem bytes_cons (c : Char) (rest : Text) :
    bytes (c :: rest) = String.utf8EncodeChar c ++ bytes rest :=
  List.flatMap_cons

theorem bytes_singleton (c : Char) : bytes [c] = String.utf8EncodeChar c :=
  List.append_nil _

theorem bytes_append (a b : Text) : bytes (a ++ b) = bytes a ++ bytes b :=
  List.flatMap_append

theorem length_bytes (text : Text) : (bytes text).length = byteSize text := by
  induction text with
  | nil => rfl
  | cons c rest ih => rw [bytes_cons, List.length_append, ih, String.length_utf8EncodeChar, byteSize]

theorem take_bytes (before after : Text) :
    (bytes (before ++ after)).take (byteSize before) = bytes before := by
  rw [bytes_append, ← length_bytes, List.take_left]

theorem drop_bytes (before after : Text) :
    (bytes (before ++ after)).drop (byteSize before) = bytes after := by
  rw [bytes_append, ← length_bytes, List.drop_left]

/-- No byte of a longer encoding is that of an ASCII character. -/
theorem le_of_mem_utf8EncodeChar {c : Char} (high : 128 ≤ c.toNat) {b : UInt8}
    (h : b ∈ String.utf8EncodeChar c) : 128 ≤ b.toNat := by
  have value : c.val.toNat = c.toNat := rfl
  have unfit : ¬ c.toNat ≤ 127 := by omega
  simp only [String.utf8EncodeChar, value, unfit, if_false] at h
  split at h
  · simp only [List.mem_cons, List.not_mem_nil, or_false] at h
    rcases h with rfl | rfl <;> rw [UInt8.toNat_ofNat'] <;> omega
  · split at h
    · simp only [List.mem_cons, List.not_mem_nil, or_false] at h
      rcases h with rfl | rfl | rfl <;> rw [UInt8.toNat_ofNat'] <;> omega
    · simp only [List.mem_cons, List.not_mem_nil, or_false] at h
      rcases h with rfl | rfl | rfl | rfl <;> rw [UInt8.toNat_ofNat'] <;> omega

theorem utf8EncodeChar_of_ascii {a : Char} (ascii : a.toNat < 128) :
    String.utf8EncodeChar a = [a.toUInt8] := by
  have fits : a.val.toNat ≤ 127 := Nat.le_of_lt_succ ascii
  simp only [String.utf8EncodeChar, fits, if_true]
  rfl

theorem toNat_toUInt8 {a : Char} (ascii : a.toNat < 128) : a.toUInt8.toNat = a.toNat :=
  Nat.mod_eq_of_lt (Nat.lt_trans ascii (by decide))

section Ascii

variable {a : Char} (ascii : a.toNat < 128)

include ascii

theorem mem_utf8EncodeChar_iff {c : Char} : a.toUInt8 ∈ String.utf8EncodeChar c ↔ c = a := by
  constructor
  · intro h
    by_cases high : 128 ≤ c.toNat
    · have := le_of_mem_utf8EncodeChar high h
      rw [toNat_toUInt8 ascii] at this
      omega
    · have low : c.toNat < 128 := by omega
      rw [utf8EncodeChar_of_ascii low, List.mem_singleton] at h
      have same := congrArg UInt8.toNat h
      rw [toNat_toUInt8 ascii, toNat_toUInt8 low] at same
      exact Char.ext (UInt32.toNat_inj.1 same.symm)
  · rintro rfl
    rw [utf8EncodeChar_of_ascii ascii]
    exact List.mem_singleton_self _

theorem count_bytes (text : Text) : (bytes text).count a.toUInt8 = text.count a := by
  induction text with
  | nil => rfl
  | cons c rest ih =>
    rw [bytes_cons, List.count_append, ih, List.count_cons, Nat.add_comm]
    by_cases same : c = a
    · subst same
      simp [utf8EncodeChar_of_ascii ascii]
    · have absent : a.toUInt8 ∉ String.utf8EncodeChar c := mt (mem_utf8EncodeChar_iff ascii).1 same
      simp [same, List.count_eq_zero_of_not_mem absent]

/-- The byte of an ASCII character splits the text at this character. -/
theorem getElem?_bytes_iff {text : Text} {i : Nat} : (bytes text)[i]? = some a.toUInt8 ↔
    ∃ before after, text = before ++ a :: after ∧ byteSize before = i := by
  constructor
  · intro h
    induction text generalizing i with
    | nil => simp [bytes] at h
    | cons c rest ih =>
      rw [bytes_cons] at h
      by_cases inside : i < (String.utf8EncodeChar c).length
      · rw [List.getElem?_append_left inside] at h
        obtain rfl := (mem_utf8EncodeChar_iff ascii).1 (List.mem_of_getElem? h)
        rw [utf8EncodeChar_of_ascii ascii, List.length_singleton] at inside
        exact ⟨[], rest, rfl, by simp only [byteSize]; omega⟩
      · rw [List.getElem?_append_right (by omega)] at h
        obtain ⟨before, after, rfl, size⟩ := ih h
        rw [String.length_utf8EncodeChar] at size inside
        exact ⟨c :: before, after, rfl, by simp only [byteSize]; omega⟩
  · rintro ⟨before, after, rfl, rfl⟩
    rw [bytes_append, ← length_bytes, List.getElem?_append_right (Nat.le_refl _), bytes_cons,
      utf8EncodeChar_of_ascii ascii]
    simp

end Ascii

/-- The first bytes of a text hold the ASCII characters of some first part of it. -/
theorem exists_prefix_of_take (text : Text) (n : Nat) : ∃ before, before <+: text ∧
    ∀ a : Char, a.toNat < 128 → ((bytes text).take n).count a.toUInt8 = before.count a := by
  induction text generalizing n with
  | nil => exact ⟨[], List.prefix_refl _, by simp [bytes]⟩
  | cons c rest ih =>
    rw [bytes_cons]
    by_cases inside : n < (String.utf8EncodeChar c).length
    · -- the bytes end in the first character, which is whole only if it is longer than one byte
      refine ⟨[], List.nil_prefix, fun a ascii => ?_⟩
      rw [List.take_append_of_le_length (Nat.le_of_lt inside), List.count_nil]
      apply List.count_eq_zero_of_not_mem
      intro h
      obtain rfl := (mem_utf8EncodeChar_iff ascii).1 (List.mem_of_mem_take h)
      rw [utf8EncodeChar_of_ascii ascii, List.length_singleton] at inside
      simp [Nat.lt_one_iff.1 inside] at h
    · obtain ⟨before, ⟨after, rfl⟩, counts⟩ := ih (n - (String.utf8EncodeChar c).length)
      refine ⟨c :: before, ⟨after, rfl⟩, fun a ascii => ?_⟩
      have whole := count_bytes ascii [c]
      rw [bytes_singleton] at whole
      rw [List.take_append, List.take_of_length_le (by omega), List.count_append, counts a ascii, whole,
        ← List.count_append, List.singleton_append]

theorem splitAtByte?_eq_some_iff {n : Nat} {text before after : Text} :
    splitAtByte? n text = some (before, after) ↔ text = before ++ after ∧ byteSize before = n := by
  constructor
  · intro h
    induction text generalizing n before with
    | nil =>
      cases n with
      | zero =>
        obtain ⟨rfl, rfl⟩ := Prod.mk.inj (Option.some.inj h)
        exact ⟨rfl, rfl⟩
      | succ n => simp [splitAtByte?] at h
    | cons c rest ih =>
      cases n with
      | zero =>
        obtain ⟨rfl, rfl⟩ := Prod.mk.inj (Option.some.inj h)
        exact ⟨rfl, rfl⟩
      | succ n =>
        rw [splitAtByte?] at h
        split at h
        · obtain ⟨⟨b, a⟩, found, same⟩ := Option.map_eq_some_iff.1 h
          obtain ⟨rfl, rfl⟩ := Prod.mk.inj same
          obtain ⟨rfl, size⟩ := ih found
          exact ⟨rfl, by simp only [byteSize]; omega⟩
        · cases h
  · rintro ⟨rfl, rfl⟩
    exact splitAtByte?_byteSize before after

end Text

namespace Position

open Text

/-- A line starts at the offset: the first one with the text, each other one below a line feed. -/
inductive StartsLine (bytes : List UInt8) : (number offset : Nat) → Prop
  | first : StartsLine bytes 1 0
  | below {i : Nat} : bytes[i]? = some '\n'.toUInt8 →
    StartsLine bytes ((bytes.take (i + 1)).count '\n'.toUInt8 + 1) (i + 1)

/-- The position of an offset, told from the bytes before it. -/
def ofByte (bytes : List UInt8) (offset : Nat) : Position where
  line := (bytes.take offset).count '\n'.toUInt8 + 1
  column := ((bytes.take offset).reverse.takeWhile (· != '\n'.toUInt8)).length

theorem lineFeed_ascii : '\n'.toNat < 128 := by decide

theorem lineOffset?_append (above rest : Text) :
    lineOffset? (above.count '\n' + 1) (above ++ '\n' :: rest) = some (byteSize above + 1) := by
  induction above with
  | nil => simp [lineOffset?, byteSize, Char.utf8Size]
  | cons c above ih =>
    by_cases here : c = '\n'
    · simp [here, lineOffset?, ih, byteSize, Nat.add_assoc]
    · simp [here, lineOffset?, ih, byteSize, Nat.add_assoc]

theorem exists_of_lineOffset? {number start : Nat} {text : Text}
    (h : lineOffset? number text = some start) : number = 0 ∧ start = 0 ∨
      ∃ above rest, text = above ++ '\n' :: rest ∧ number = above.count '\n' + 1 ∧
        start = byteSize above + 1 := by
  induction text generalizing number start with
  | nil =>
    cases number with
    | zero => exact Or.inl ⟨rfl, (Option.some.inj h).symm⟩
    | succ number => simp [lineOffset?] at h
  | cons c rest ih =>
    cases number with
    | zero => exact Or.inl ⟨rfl, (Option.some.inj h).symm⟩
    | succ number =>
      obtain ⟨later, found, rfl⟩ := Option.map_eq_some_iff.1 h
      right
      by_cases here : c = '\n'
      · subst here
        rw [if_pos rfl] at found
        rcases ih found with ⟨rfl, rfl⟩ | ⟨above, rest, rfl, rfl, rfl⟩
        · exact ⟨[], rest, rfl, rfl, rfl⟩
        · exact ⟨'\n' :: above, rest, rfl, by simp, by simp only [byteSize]; omega⟩
      · rw [if_neg here] at found
        obtain ⟨above, rest, rfl, same, rfl⟩ := (ih found).resolve_left (by simp)
        exact ⟨c :: above, rest, rfl, by simp [here, same], by simp only [byteSize]; omega⟩

/-- The bytes through a line feed hold one more than the text before it. -/
theorem count_take_lineFeed (above rest : Text) :
    ((bytes (above ++ '\n' :: rest)).take (byteSize above + 1)).count '\n'.toUInt8 =
      above.count '\n' + 1 := by
  have parts := take_bytes (above ++ ['\n']) rest
  rw [List.append_assoc, List.singleton_append, byteSize_append] at parts
  rw [show byteSize above + 1 = byteSize above + byteSize ['\n'] from rfl, parts,
    count_bytes lineFeed_ascii]
  simp

theorem startsLine_iff {number start : Nat} {text : Text} :
    StartsLine (bytes text) (number + 1) start ↔ lineOffset? number text = some start := by
  constructor
  · generalize whole : number + 1 = line
    intro h
    cases h with
    | first =>
      obtain rfl : number = 0 := by omega
      simp [lineOffset?]
    | below fed =>
      obtain ⟨above, rest, rfl, rfl⟩ := (getElem?_bytes_iff lineFeed_ascii).1 fed
      rw [count_take_lineFeed] at whole
      rw [← lineOffset?_append above rest]
      congr 1
      omega
  · intro h
    rcases exists_of_lineOffset? h with ⟨rfl, rfl⟩ | ⟨above, rest, rfl, rfl, rfl⟩
    · exact .first
    · rw [← count_take_lineFeed above rest]
      exact .below ((getElem?_bytes_iff lineFeed_ascii).2 ⟨above, rest, rfl, rfl⟩)

theorem offset?_eq_some_iff {text : Text} {p : Position} {offset : Nat} :
    p.offset? text = some offset ↔ ∃ start, StartsLine (bytes text) p.line start ∧
      sumBefore? (byteSize text) start p.column = some offset := by
  obtain ⟨line, column⟩ := p
  cases line with
  | zero =>
    have no_line : ∀ {start}, ¬ StartsLine (bytes text) 0 start := by
      intro start h
      cases h
    simp [offset?, no_line]
  | succ number =>
    simp only [offset?, startsLine_iff, Option.bind_eq_bind, Option.bind_eq_some_iff]

theorem lt_of_offset? {text : Text} {p : Position} {offset : Nat} (h : p.offset? text = some offset) :
    offset < byteSize text := by
  obtain ⟨start, -, sum⟩ := offset?_eq_some_iff.1 h
  exact lt_of_sumBefore? sum

theorem offset?_of_startsLine {text : Text} {p : Position} {start : Nat}
    (starts : StartsLine (bytes text) p.line start) (inside : start + p.column < byteSize text) :
    p.offset? text = some (start + p.column) :=
  offset?_eq_some_iff.2 ⟨start, starts, sumBefore?_of_lt inside⟩

/-- The offset of the position is a word. Only a column that is almost as large as the largest word
makes it none. -/
def FitsWord (text : Text) (p : Position) : Prop :=
  ∀ start, StartsLine (bytes text) p.line start → start + p.column < wordBound

/-- A line starts in the text or at its end. -/
theorem StartsLine.le_byteSize {text : Text} {number start : Nat}
    (h : StartsLine (bytes text) number start) : start ≤ byteSize text := by
  cases h with
  | first => exact Nat.zero_le _
  | below fed =>
    rw [← length_bytes]
    exact (List.getElem?_eq_some_iff.1 fed).1

theorem fitsWord_of_lt {text : Text} {p : Position} (h : byteSize text + p.column < wordBound) :
    p.FitsWord text :=
  fun _ starts => Nat.lt_of_le_of_lt (Nat.add_le_add_right starts.le_byteSize _) h

theorem FitsWord.offset?_eq_some_iff {text : Text} {p : Position} (fits : p.FitsWord text)
    {offset : Nat} : p.offset? text = some offset ↔ offset < byteSize text ∧
      ∃ start, StartsLine (bytes text) p.line start ∧ start + p.column = offset := by
  rw [Position.offset?_eq_some_iff]
  constructor
  · rintro ⟨start, starts, sum⟩
    rw [sumBefore?_of_word (fits start starts), Option.ite_none_right_eq_some, Option.some.injEq] at sum
    obtain ⟨inside, rfl⟩ := sum
    exact ⟨inside, start, starts, rfl⟩
  · rintro ⟨inside, start, starts, rfl⟩
    exact ⟨start, starts, sumBefore?_of_lt inside⟩

/-- The start of the line on which a text ends lies as far before its end as the column tells. -/
theorem exists_startsLine (before after : Text) : ∃ start,
    StartsLine (bytes (before ++ after)) (Position.after before).line start ∧
      start + (Position.after before).column = byteSize before := by
  induction before using List.reverseRecOn generalizing after with
  | nil => exact ⟨0, .first, rfl⟩
  | append_singleton before c ih =>
    obtain ⟨start, starts, reaches⟩ := ih (c :: after)
    have step : Position.after (before ++ [c]) = (Position.after before).advance c :=
      after_append before [c]
    rw [List.append_assoc, List.singleton_append, byteSize_append, step]
    by_cases here : c = '\n'
    · subst here
      have number := count_take_lineFeed before after
      rw [← Nat.add_right_cancel_iff (n := 1), ← after_line] at number
      refine ⟨byteSize before + 1, ?_, by simp [advance, byteSize, Char.utf8Size]⟩
      rw [advance, if_pos rfl, ← number]
      exact .below ((getElem?_bytes_iff lineFeed_ascii).2 ⟨before, after, rfl, rfl⟩)
    · refine ⟨start, by simpa [advance, here] using starts, ?_⟩
      simp only [advance, here, if_false, byteSize]
      omega

/-- From an offset to a later one the line goes up with each line feed between them. -/
theorem ofByte_line_add (bytes : List UInt8) {a b : Nat} (h : a ≤ b) :
    (ofByte bytes b).line = (ofByte bytes a).line + ((bytes.take b).drop a).count '\n'.toUInt8 := by
  have parts : (bytes.take b).count '\n'.toUInt8 =
      (bytes.take a).count '\n'.toUInt8 + ((bytes.take b).drop a).count '\n'.toUInt8 := by
    rw [← List.count_append, ← Nat.min_eq_left h, ← List.take_take, Nat.min_eq_left h,
      List.take_append_drop]
  rw [ofByte, ofByte]
  dsimp only
  omega

/-- The position after a text is that of the offset at its end. -/
theorem ofByte_byteSize (before after : Text) :
    ofByte (bytes (before ++ after)) (byteSize before) = Position.after before := by
  rw [ofByte, take_bytes]
  induction before using List.reverseRecOn with
  | nil => rfl
  | append_singleton before c ih =>
    rw [after_append, ← ih]
    rw [bytes_append, bytes_singleton, List.reverse_append, List.count_append]
    by_cases here : c = '\n'
    · subst here
      simp [advance, utf8EncodeChar_of_ascii lineFeed_ascii]
    · have absent : '\n'.toUInt8 ∉ String.utf8EncodeChar c :=
        mt (mem_utf8EncodeChar_iff lineFeed_ascii).1 here
      have others : ∀ b ∈ (String.utf8EncodeChar c).reverse, (b != '\n'.toUInt8) = true := by
        intro b hb
        rw [bne_iff_ne]
        rintro rfl
        exact absent (List.mem_reverse.1 hb)
      rw [List.takeWhile_append_of_pos others]
      simp [advance, here, List.count_eq_zero_of_not_mem absent, String.length_utf8EncodeChar,
        Nat.add_comm]

end Position

end ComponentForge

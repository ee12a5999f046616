import ComponentForge.Proofs.Index.Zone
import ComponentForge.Proofs.Text.Bytes

/-!
# Partners of braces

The search for the closing brace of a zone follows the braces of a text from an opening one on. The
brace that it finds is the first place at which as many braces have closed as have opened, counted
over the bytes of the text; before it the braces that have closed are never more than those that
have opened. With this, what is found and where is told from the bytes alone.
-/

namespace ComponentForge

open Text Position

/-- No more braces close in any first part of the text than `depth` and those that open in it. -/
def StaysOpen (depth : Nat) (text : Text) : Prop :=
  ∀ before, before <+: text → before.count '}' ≤ depth + before.count '{'

theorem staysOpen_cons_iff {depth : Nat} {c : Char} {rest : Text} : StaysOpen depth (c :: rest) ↔
    ∀ before, before <+: rest → (c :: before).count '}' ≤ depth + (c :: before).count '{' := by
  simp only [StaysOpen, List.prefix_cons_iff]
  constructor
  · exact fun h before hbefore => h (c :: before) (Or.inr ⟨before, rfl, hbefore⟩)
  · rintro h before (rfl | ⟨before, rfl, hbefore⟩)
    · simp
    · exact h before hbefore

theorem staysOpen_open {depth : Nat} {rest : Text} :
    StaysOpen depth ('{' :: rest) ↔ StaysOpen (depth + 1) rest := by
  rw [staysOpen_cons_iff, StaysOpen]
  refine forall₂_congr fun before _ => ?_
  simp only [List.count_cons_self, List.count_cons_of_ne (show '{' ≠ '}' by decide)]
  omega

theorem staysOpen_close {depth : Nat} {rest : Text} :
    StaysOpen (depth + 1) ('}' :: rest) ↔ StaysOpen depth rest := by
  rw [staysOpen_cons_iff, StaysOpen]
  refine forall₂_congr fun before _ => ?_
  simp only [List.count_cons_self, List.count_cons_of_ne (show '}' ≠ '{' by decide)]
  omega

theorem staysOpen_other {depth : Nat} {c : Char} (ho : c ≠ '{') (hc : c ≠ '}') {rest : Text} :
    StaysOpen depth (c :: rest) ↔ StaysOpen depth rest := by
  rw [staysOpen_cons_iff, StaysOpen]
  simp only [List.count_cons_of_ne ho, List.count_cons_of_ne hc]

/-- What the search skips, or all of the text if it finds nothing, closes no more than it opens. -/
theorem staysOpen_insideBraces? (depth : Nat) (text : Text) :
    StaysOpen depth ((insideBraces? depth text).getD text) := by
  fun_induction insideBraces? depth text with
  | case1 => simp [StaysOpen]
  | case2 depth rest later =>
    rw [Option.getD_map ('{' :: ·)]
    exact staysOpen_open.2 later
  | case3 => simp [StaysOpen]
  | case4 rest depth _ later =>
    rw [Option.getD_map ('}' :: ·)]
    exact staysOpen_close.2 later
  | case5 depth c rest ho hc later =>
    rw [Option.getD_map (c :: ·)]
    exact (staysOpen_other ho hc).2 later

theorem count_insideBraces? {depth : Nat} {text inside : Text}
    (h : insideBraces? depth text = some inside) :
    inside.count '}' = depth + inside.count '{' := by
  fun_induction insideBraces? depth text generalizing inside with
  | case1 => cases h
  | case2 depth rest ih =>
    obtain ⟨inner, hinner, rfl⟩ := Option.map_eq_some_iff.1 h
    have balance := ih hinner
    simp only [List.count_cons_self, List.count_cons_of_ne (show '{' ≠ '}' by decide)]
    omega
  | case3 rest =>
    obtain rfl : [] = inside := Option.some.inj h
    rfl
  | case4 rest depth _ ih =>
    obtain ⟨inner, hinner, rfl⟩ := Option.map_eq_some_iff.1 h
    have balance := ih hinner
    simp only [List.count_cons_self, List.count_cons_of_ne (show '}' ≠ '{' by decide)]
    omega
  | case5 depth c rest ho hc ih =>
    obtain ⟨inner, hinner, rfl⟩ := Option.map_eq_some_iff.1 h
    rw [List.count_cons_of_ne ho, List.count_cons_of_ne hc]
    exact ih hinner

/-- The number of opening braces among the bytes from one offset through another. -/
def openings (bytes : List UInt8) (start stop : Nat) : Nat :=
  ((bytes.take (stop + 1)).drop start).count '{'.toUInt8

/-- The number of closing braces among the bytes from one offset through another. -/
def closings (bytes : List UInt8) (start stop : Nat) : Nat :=
  ((bytes.take (stop + 1)).drop start).count '}'.toUInt8

/-- The opening brace at one offset is balanced for the first time at the other. -/
structure Partner (bytes : List UInt8) (opening closing : Nat) : Prop where
  brace : bytes[opening]? = some '{'.toUInt8
  later : opening < closing
  within : closing < bytes.length
  balanced : openings bytes opening closing = closings bytes opening closing
  first : ∀ stop, opening < stop → stop < closing →
    openings bytes opening stop ≠ closings bytes opening stop

theorem Partner.unique {bytes : List UInt8} {opening a b : Nat} (ha : Partner bytes opening a)
    (hb : Partner bytes opening b) : a = b := by
  rcases Nat.lt_trichotomy a b with lt | same | lt
  · exact absurd ha.balanced (hb.first a ha.later lt)
  · exact same
  · exact absurd hb.balanced (ha.first b hb.later lt)

theorem openBrace_ascii : '{'.toNat < 128 := by decide

theorem closeBrace_ascii : '}'.toNat < 128 := by decide

section Search

variable {front rest inside : Text} {k : Nat}

theorem byteSize_opened (front inside : Text) :
    byteSize (front ++ '{' :: inside) = byteSize front + (byteSize inside + 1) := by
  rw [byteSize_append, Nat.add_comm (byteSize inside)]
  rfl

theorem counted (front rest : Text) (k : Nat) :
    ((bytes (front ++ '{' :: rest)).take (byteSize front + k + 1)).drop (byteSize front) =
      '{'.toUInt8 :: (bytes rest).take k := by
  rw [List.drop_take, drop_bytes, bytes_cons, utf8EncodeChar_of_ascii openBrace_ascii,
    show byteSize front + k + 1 - byteSize front = k + 1 by omega]
  rfl

theorem openings_eq (front rest : Text) (k : Nat) :
    openings (bytes (front ++ '{' :: rest)) (byteSize front) (byteSize front + k) =
      ((bytes rest).take k).count '{'.toUInt8 + 1 := by
  rw [openings, counted, List.count_cons_self]

theorem closings_eq (front rest : Text) (k : Nat) :
    closings (bytes (front ++ '{' :: rest)) (byteSize front) (byteSize front + k) =
      ((bytes rest).take k).count '}'.toUInt8 := by
  rw [closings, counted, List.count_cons_of_ne (by decide)]

theorem count_take_le {part : Text} (stays : StaysOpen 0 part) (k : Nat) :
    ((bytes part).take k).count '}'.toUInt8 ≤ ((bytes part).take k).count '{'.toUInt8 := by
  obtain ⟨before, hbefore, counts⟩ := exists_prefix_of_take part k
  have bound := stays before hbefore
  rw [counts _ openBrace_ascii, counts _ closeBrace_ascii]
  omega

/-- As long as the search goes on, some brace is open. -/
theorem closings_lt (front : Text)
    (short : ∀ inside, insideBraces? 0 rest = some inside → k ≤ byteSize inside) :
    closings (bytes (front ++ '{' :: rest)) (byteSize front) (byteSize front + k) <
      openings (bytes (front ++ '{' :: rest)) (byteSize front) (byteSize front + k) := by
  rw [openings_eq, closings_eq, Nat.lt_succ_iff]
  have stays := staysOpen_insideBraces? 0 rest
  cases found : insideBraces? 0 rest with
  | none =>
    rw [found] at stays
    exact count_take_le stays k
  | some inside =>
    rw [found] at stays
    obtain ⟨below, rfl⟩ := append_of_insideBraces? found
    have fits : k ≤ (bytes inside).length := by
      rw [length_bytes]
      exact short inside found
    rw [bytes_append, List.take_append_of_le_length fits]
    exact count_take_le stays k

theorem balanced_insideBraces? (front : Text) (found : insideBraces? 0 rest = some inside) :
    openings (bytes (front ++ '{' :: rest)) (byteSize front) (byteSize front + (byteSize inside + 1)) =
      closings (bytes (front ++ '{' :: rest)) (byteSize front)
        (byteSize front + (byteSize inside + 1)) := by
  rw [openings_eq, closings_eq]
  obtain ⟨below, rfl⟩ := append_of_insideBraces? found
  have parts := take_bytes (inside ++ ['}']) below
  rw [List.append_assoc, List.singleton_append, byteSize_append] at parts
  have balance := count_insideBraces? found
  rw [show byteSize inside + 1 = byteSize inside + byteSize ['}'] from rfl, parts,
    count_bytes openBrace_ascii, count_bytes closeBrace_ascii, List.count_append, List.count_append,
    balance]
  simp

/-- The search finds the partner of the brace. -/
theorem partner_iff {closing : Nat} :
    Partner (bytes (front ++ '{' :: rest)) (byteSize front) closing ↔
      ∃ inside, insideBraces? 0 rest = some inside ∧ closing = byteSize (front ++ '{' :: inside) := by
  have finds : ∀ inside, insideBraces? 0 rest = some inside →
      Partner (bytes (front ++ '{' :: rest)) (byteSize front) (byteSize (front ++ '{' :: inside)) := by
    intro inside found
    rw [byteSize_opened]
    refine ⟨(getElem?_bytes_iff openBrace_ascii).2 ⟨front, rest, rfl, rfl⟩, by omega, ?_,
      balanced_insideBraces? front found, ?_⟩
    · obtain ⟨below, rfl⟩ := append_of_insideBraces? found
      rw [length_bytes]
      simp only [byteSize_append, byteSize]
      have := Char.utf8Size_pos '{'
      have := Char.utf8Size_pos '}'
      omega
    · intro stop later before
      obtain ⟨k, rfl⟩ := Nat.exists_eq_add_of_le (Nat.le_of_lt later)
      refine Nat.ne_of_gt (closings_lt front ?_)
      intro inside' found'
      obtain rfl := Option.some.inj (found.symm.trans found')
      omega
  constructor
  · intro partner
    cases found : insideBraces? 0 rest with
    | none =>
      obtain ⟨k, rfl⟩ := Nat.exists_eq_add_of_le (Nat.le_of_lt partner.later)
      exact absurd partner.balanced (Nat.ne_of_gt (closings_lt front (by simp [found])))
    | some inside => exact ⟨inside, rfl, partner.unique (finds inside found)⟩
  · rintro ⟨inside, found, rfl⟩
    exact finds inside found

/-- The depth of the search never falls below zero. -/
theorem closings_le {text : Text} {opening stop : Nat}
    (brace : (bytes text)[opening]? = some '{'.toUInt8) (later : opening ≤ stop)
    (goes_on : ∀ sooner, opening < sooner → sooner < stop →
      openings (bytes text) opening sooner ≠ closings (bytes text) opening sooner) :
    closings (bytes text) opening stop ≤ openings (bytes text) opening stop := by
  obtain ⟨front, rest, rfl, rfl⟩ := (getElem?_bytes_iff openBrace_ascii).1 brace
  obtain ⟨k, rfl⟩ := Nat.exists_eq_add_of_le later
  by_cases short : ∀ inside, insideBraces? 0 rest = some inside → k ≤ byteSize inside
  · exact Nat.le_of_lt (closings_lt front short)
  · -- the search ends at the brace that closes, where as many braces have closed as have opened
    simp only [not_forall, Nat.not_le] at short
    obtain ⟨inside, found, long⟩ := short
    have balanced := balanced_insideBraces? front found
    rcases Nat.eq_or_lt_of_le (Nat.succ_le_of_lt long) with same | past
    · rw [← same]
      exact Nat.le_of_eq balanced.symm
    · exact absurd balanced (goes_on _ (by omega) (by omega))

end Search

theorem matchBrace?_split {text : Text} {p q : Position} : matchBrace? text p = some q ↔
    ∃ front rest inside, text = front ++ '{' :: rest ∧ p.offset? text = some (byteSize front) ∧
      insideBraces? 0 rest = some inside ∧ q = .after (front ++ '{' :: inside) := by
  constructor
  · intro h
    obtain ⟨offset, points, opened⟩ := Option.bind_eq_some_iff.1 h
    obtain ⟨⟨front, after⟩, cut, searched⟩ := Option.bind_eq_some_iff.1 opened
    clear h opened
    obtain ⟨rfl, rfl⟩ := splitAtByte?_eq_some_iff.1 cut
    dsimp only at searched
    split at searched
    · cases searched
    · split at searched
      · rename_i c rest hc
        subst hc
        obtain ⟨inside, found, same⟩ := Option.bind_eq_some_iff.1 searched
        exact ⟨front, rest, inside, rfl, points, found, (Option.some.inj same).symm⟩
      · cases searched
  · rintro ⟨front, rest, inside, rfl, points, found, rfl⟩
    simp [matchBrace?, points, splitAtByte?_byteSize, found]

/-- A search from a position finds the partner of the brace to which the position points. -/
theorem matchBrace?_iff {text : Text} {p q : Position} : matchBrace? text p = some q ↔
    ∃ opening closing, p.offset? text = some opening ∧ Partner (bytes text) opening closing ∧
      q = .ofByte (bytes text) closing := by
  have place (front inside below : Text) : Position.after (front ++ '{' :: inside) =
      .ofByte (bytes (front ++ '{' :: (inside ++ '}' :: below))) (byteSize (front ++ '{' :: inside)) := by
    rw [← ofByte_byteSize (front ++ '{' :: inside) ('}' :: below), List.append_assoc, List.cons_append]
  rw [matchBrace?_split]
  constructor
  · rintro ⟨front, rest, inside, rfl, points, found, rfl⟩
    obtain ⟨below, rfl⟩ := append_of_insideBraces? found
    exact ⟨_, _, points, partner_iff.2 ⟨inside, found, rfl⟩, place front inside below⟩
  · rintro ⟨opening, closing, points, partner, rfl⟩
    obtain ⟨front, rest, rfl, rfl⟩ := (getElem?_bytes_iff openBrace_ascii).1 partner.brace
    obtain ⟨inside, found, rfl⟩ := partner_iff.1 partner
    obtain ⟨below, rfl⟩ := append_of_insideBraces? found
    exact ⟨front, _, inside, rfl, points, found, (place front inside below).symm⟩

/-- The sum of the start of the line and the column is the place of the brace, as long as it is a
word. -/
theorem matchBrace?_iff_of_fitsWord {text : Text} {p q : Position} (fits : p.FitsWord text) :
    matchBrace? text p = some q ↔ ∃ start closing, StartsLine (bytes text) p.line start ∧
      Partner (bytes text) (start + p.column) closing ∧ q = .ofByte (bytes text) closing := by
  simp only [matchBrace?_iff, fits.offset?_eq_some_iff]
  constructor
  · rintro ⟨opening, closing, ⟨-, start, starts, rfl⟩, partner, rfl⟩
    exact ⟨start, closing, starts, partner, rfl⟩
  · rintro ⟨start, closing, starts, partner, rfl⟩
    have inside : start + p.column < byteSize text := by
      rw [← length_bytes]
      exact Nat.lt_trans partner.later partner.within
    exact ⟨_, closing, ⟨inside, start, starts, rfl⟩, partner, rfl⟩

/-- The needle stands in the text at this offset. -/
def OccursAt (text needle : Text) (offset : Nat) : Prop :=
  ∃ before after, text = before ++ (needle ++ after) ∧ byteSize before = offset

structure FirstAt (text needle : Text) (offset : Nat) : Prop where
  occurs : OccursAt text needle offset
  least : ∀ other, OccursAt text needle other → offset ≤ other

/-- A zone opens with the first occurrence of the marker and closes with the partner of its first
brace, on a line below the one on which the occurrence begins. -/
structure Opens (text marker : Text) (occurrence closing : Nat) : Prop where
  occurs : FirstAt text marker occurrence
  partner : ∃ opening more, marker = opening ++ '{' :: more ∧ '{' ∉ opening ∧
    Partner (bytes text) (occurrence + byteSize opening) closing
  below : '\n'.toUInt8 ∈ ((bytes text).take closing).drop occurrence

theorem prefix_of_splitBefore?_append {needle before before' after after' : Text}
    (h : (before' ++ (needle ++ after')).splitBefore? needle = some (before, after)) :
    before <+: before' := by
  induction before' generalizing before with
  | nil =>
    rw [List.nil_append, splitBefore?_of_prefix (List.prefix_append needle after')] at h
    obtain ⟨rfl, -⟩ := Prod.mk.inj (Option.some.inj h)
    exact List.prefix_refl _
  | cons c before' ih =>
    rw [splitBefore?, List.cons_append, splitWhere?] at h
    split at h
    · obtain ⟨rfl, -⟩ := Prod.mk.inj (Option.some.inj h)
      exact List.nil_prefix
    · obtain ⟨⟨b, a⟩, found, same⟩ := Option.map_eq_some_iff.1 h
      obtain ⟨rfl, rfl⟩ := Prod.mk.inj same
      exact List.cons_prefix_cons.2 ⟨rfl, ih found⟩

theorem le_of_splitBefore? {text needle before after : Text} {offset : Nat}
    (h : text.splitBefore? needle = some (before, after)) (occurs : OccursAt text needle offset) :
    byteSize before ≤ offset := by
  obtain ⟨before', after', rfl, rfl⟩ := occurs
  obtain ⟨between, rfl⟩ := prefix_of_splitBefore?_append h
  rw [byteSize_append]
  exact Nat.le_add_right _ _

/-- A split before a needle is at its first occurrence. -/
theorem splitBefore?_iff {text needle before after : Text} :
    text.splitBefore? needle = some (before, needle ++ after) ↔ text = before ++ (needle ++ after) ∧
      ∀ offset, OccursAt text needle offset → byteSize before ≤ offset := by
  constructor
  · intro h
    exact ⟨(append_of_splitBefore? h).symm, fun offset => le_of_splitBefore? h⟩
  · rintro ⟨rfl, first⟩
    cases h : (before ++ (needle ++ after)).splitBefore? needle with
    | none => exact absurd ⟨before, after, by simp⟩ (splitBefore?_eq_none_iff.1 h)
    | some found =>
      obtain ⟨before', after'⟩ := found
      have whole := append_of_splitBefore? h
      obtain ⟨rest, rfl⟩ := prefix_of_splitBefore? h
      have sizes := first _ ⟨before', rest, whole.symm, rfl⟩
      obtain ⟨between, rfl⟩ := prefix_of_splitBefore?_append h
      obtain rfl : between = [] := by
        cases between with
        | nil => rfl
        | cons c between =>
          have := c.utf8Size_pos
          simp only [byteSize_append, byteSize] at sizes
          omega
      simpa using whole

theorem mem_of_splitBefore? {text : Text} {c : Char} {found : Text × Text}
    (h : text.splitBefore? [c] = some found) : c ∈ text := by
  by_contra absent
  have none : text.splitBefore? [c] = none :=
    splitBefore?_eq_none_iff.2 fun inside => absent (inside.subset (List.mem_singleton_self c))
  rw [none] at h
  cases h

theorem splitBefore?_char_iff {text before after : Text} {c : Char} :
    text.splitBefore? [c] = some (before, c :: after) ↔ text = before ++ c :: after ∧ c ∉ before := by
  constructor
  · intro h
    obtain ⟨front, rest, rfl, absent⟩ := List.eq_append_cons_of_mem (mem_of_splitBefore? h)
    rw [splitBefore?_char absent] at h
    obtain ⟨rfl, same⟩ := Prod.mk.inj (Option.some.inj h)
    exact ⟨by rw [same], absent⟩
  · rintro ⟨rfl, absent⟩
    exact splitBefore?_char absent after

theorem position?_literal_iff {text needle : Text} {p : Position} :
    (Pattern.literal needle).position? text = some p ↔
      ∃ offset, FirstAt text needle offset ∧ p = .ofByte (bytes text) offset := by
  simp only [Pattern.position?, Pattern.split?, Option.map_eq_some_iff]
  constructor
  · rintro ⟨⟨before, rest⟩, split, rfl⟩
    obtain ⟨after, rfl⟩ := prefix_of_splitBefore? split
    obtain ⟨rfl, least⟩ := splitBefore?_iff.1 split
    exact ⟨_, ⟨⟨before, after, rfl, rfl⟩, least⟩, (ofByte_byteSize _ _).symm⟩
  · rintro ⟨offset, ⟨⟨before, after, rfl, rfl⟩, least⟩, rfl⟩
    exact ⟨(before, needle ++ after), splitBefore?_iff.2 ⟨rfl, least⟩, (ofByte_byteSize _ _).symm⟩

theorem line_lt_iff {bytes : List UInt8} {a b : Nat} (h : a ≤ b) :
    (ofByte bytes a).line < (ofByte bytes b).line ↔
      '\n'.toUInt8 ∈ (bytes.take b).drop a := by
  rw [ofByte_line_add bytes h, ← List.count_pos_iff]
  omega

/-- The position of a marker with the length of what it has before its brace points to the brace. -/
theorem offset?_opening (before opening rest : Text) :
    offset? (before ++ opening ++ '{' :: rest)
      ⟨(Position.after before).line, (Position.after before).column + byteSize opening⟩ =
        some (byteSize (before ++ opening)) := by
  obtain ⟨start, starts, reaches⟩ := exists_startsLine before (opening ++ '{' :: rest)
  rw [← List.append_assoc] at starts
  have sum : start + ((Position.after before).column + byteSize opening) =
      byteSize (before ++ opening) := by
    rw [byteSize_append, ← reaches, Nat.add_assoc]
  rw [← sum]
  refine offset?_of_startsLine starts ?_
  rw [byteSize_opened, sum]
  omega

/-- The search for a zone is the search for a brace from the first brace of the first occurrence. -/
theorem locate?_eq_matchBrace? (text marker : Text) : ExportZone.locate? text marker =
    (marker.splitBefore? ['{']).bind fun (opening, _) =>
      ((Pattern.literal marker).position? text).bind fun first =>
        (matchBrace? text ⟨first.line, first.column + byteSize opening⟩).bind fun last =>
          if first.line < last.line then some ⟨first.line, last.line⟩ else none := by
  rw [ExportZone.locate?, Pattern.position?, Pattern.split?]
  cases hopening : marker.splitBefore? ['{'] with
  | none => rfl
  | some braced =>
    obtain ⟨opening, rest⟩ := braced
    obtain ⟨more, rfl⟩ := prefix_of_splitBefore? hopening
    obtain rfl := append_of_splitBefore? hopening
    cases split : text.splitBefore? (opening ++ (['{'] ++ more)) with
    | none => rfl
    | some found =>
      obtain ⟨before, rest⟩ := found
      obtain ⟨after, rfl⟩ := prefix_of_splitBefore? split
      obtain rfl := append_of_splitBefore? split
      have regroup : before ++ (opening ++ (['{'] ++ more) ++ after) =
          before ++ opening ++ '{' :: (more ++ after) := by simp
      have drop : (opening ++ (['{'] ++ more) ++ after).drop (opening.length + 1) = more ++ after :=
        ExportZone.drop_marker opening more after
      simp only [Option.bind_eq_bind, Option.bind_some, Option.map_some, drop, regroup, matchBrace?,
        offset?_opening, splitAtByte?_byteSize, if_true]
      cases insideBraces? 0 (more ++ after) <;> rfl

/-- The zone of a marker is found exactly if the marker opens one, and on the lines of its ends. -/
theorem locate?_iff {text marker : Text} {zone : ExportZone} :
    ExportZone.locate? text marker = some zone ↔ ∃ occurrence closing,
      Opens text marker occurrence closing ∧
      zone = ⟨(ofByte (bytes text) occurrence).line, (ofByte (bytes text) closing).line⟩ := by
  -- the search for the brace starts with the first brace of the first occurrence
  have points {occurrence : Nat} {opening more : Text}
      (occurs : OccursAt text (opening ++ '{' :: more) occurrence) :
      offset? text ⟨(ofByte (bytes text) occurrence).line,
        (ofByte (bytes text) occurrence).column + byteSize opening⟩ =
          some (occurrence + byteSize opening) := by
    obtain ⟨before, after, rfl, rfl⟩ := occurs
    have regroup : before ++ (opening ++ '{' :: more ++ after) =
        before ++ opening ++ '{' :: (more ++ after) := by simp
    rw [ofByte_byteSize, regroup, offset?_opening, byteSize_append]
  rw [locate?_eq_matchBrace?]
  simp only [Option.bind_eq_some_iff, Option.ite_none_right_eq_some, Option.some.injEq,
    position?_literal_iff, matchBrace?_iff]
  constructor
  · rintro ⟨⟨opening, rest⟩, hopening, -, ⟨occurrence, first, rfl⟩, -, ⟨place, closing, pointed, partner,
      rfl⟩, lower, rfl⟩
    obtain ⟨more, rfl⟩ := prefix_of_splitBefore? hopening
    obtain ⟨rfl, hbrace⟩ := splitBefore?_char_iff.1 hopening
    obtain rfl := Option.some.inj ((points first.occurs).symm.trans pointed)
    have later := partner.later
    exact ⟨occurrence, closing, ⟨first, ⟨opening, more, rfl, hbrace, partner⟩,
      (line_lt_iff (by omega)).1 lower⟩, rfl⟩
  · rintro ⟨occurrence, closing, ⟨first, ⟨opening, more, rfl, hbrace, partner⟩, lower⟩, rfl⟩
    have later := partner.later
    exact ⟨_, splitBefore?_char_iff.2 ⟨rfl, hbrace⟩, _, ⟨_, first, rfl⟩, _,
      ⟨_, closing, points first.occurs, partner, rfl⟩, (line_lt_iff (by omega)).2 lower, rfl⟩

/-- The braces stand on the first line of two. -/
def closedPair : Text :=
  "\x7b\x7d\nx".toList

/-- A marker over two lines, after a letter of two bytes and before nested braces. -/
def nestedZone : Text :=
  "é export\r\n\x7b a\x7bb\x7d\n\x7d\x7d".toList

end ComponentForge

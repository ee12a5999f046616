import ComponentForge.Proofs.Index.Braces

/-!
# Places as offsets

An editor that works on encoded text names a place by its byte offset and a line by its number. Cuts of
the text, indices and differences can then be out of bounds, which is a breach here and not a default.
Positions, offsets and the partners of braces that are computed in this way never breach, and they are
the ones that the text itself gives.
-/

namespace ComponentForge.Guarded

open Text

inductive Breach where
  /-- An index behind the end of a list. -/
  | index
  /-- A difference below zero. -/
  | difference
  /-- A cut outside of a text or inside a character. -/
  | cut
deriving DecidableEq, Repr

def minus (a b : Nat) : Except Breach Nat :=
  if b ≤ a then .ok (a - b) else .error .difference

def nth {α : Type} (items : List α) (i : Nat) : Except Breach α :=
  match items[i]? with
  | some item => .ok item
  | none => .error .index

def insertNth {α : Type} (items : List α) (i : Nat) (item : α) : Except Breach (List α) :=
  if i ≤ items.length then .ok (items.insertIdx i item) else .error .index

/-- The texts before and after an offset. -/
def cut (text : Text) (offset : Nat) : Except Breach (Text × Text) :=
  match text.splitAtByte? offset with
  | some parts => .ok parts
  | none => .error .cut

/-- The offset of the first match. -/
def find? (pattern : Pattern) (text : Text) : Option Nat :=
  (pattern.split? text).map fun (before, _) => byteSize before

section Steps

theorem ok_bind {α β : Type} (a : α) (f : α → Except Breach β) : (Except.ok a >>= f) = f a :=
  rfl

theorem minus_of_le {a b : Nat} (h : b ≤ a) : minus a b = .ok (a - b) :=
  if_pos h

theorem nth_of_getElem? {α : Type} {items : List α} {i : Nat} {item : α} (h : items[i]? = some item) :
    nth items i = .ok item := by
  rw [nth, h]

theorem insertNth_of_le {α : Type} {items : List α} {i : Nat} (h : i ≤ items.length) (item : α) :
    insertNth items i item = .ok (items.insertIdx i item) :=
  if_pos h

theorem cut_byteSize (before after : Text) :
    cut (before ++ after) (byteSize before) = .ok (before, after) := by
  rw [cut, splitAtByte?_byteSize]

end Steps

/-! ## Positions -/

/-- The offset behind the last line feed. -/
def lineStart (before : Text) : Nat :=
  byteSize (splitEnd (· != '\n') before).1

def positionOf (text : Text) (offset : Nat) : Except Breach Position := do
  let (before, _) ← cut text offset
  return ⟨before.count '\n' + 1, ← minus offset (lineStart before)⟩

/-- The offsets of the line feeds of a text that starts at an offset. -/
def lineFeeds (offset : Nat) : Text → List Nat
  | [] => []
  | c :: rest =>
    if c = '\n' then offset :: lineFeeds (offset + c.utf8Size) rest
    else lineFeeds (offset + c.utf8Size) rest

/-- The offset of the line of that number. -/
def startOf (text : Text) (line : Nat) : Except Breach (Option Nat) := do
  if line = 1 then return some 0
  return ((lineFeeds 0 text)[← minus line 2]?).map (· + 1)

/-- The offset of a position, if it lies before the end of the text. -/
def offsetOf (text : Text) (p : Position) : Except Breach (Option Nat) := do
  if p.line = 0 then return none
  match ← startOf text p.line with
  | none => return none
  | some start =>
    return Position.sumBefore? (byteSize text) start p.column

/-- What goes before the last line is as long as the position of the end tells. -/
theorem lineStart_add_column (before : Text) :
    lineStart before + (Position.after before).column = byteSize before := by
  induction before using List.reverseRecOn with
  | nil => rfl
  | append_singleton before c ih =>
    have step : Position.after (before ++ [c]) = (Position.after before).advance c :=
      Position.after_append before [c]
    rw [step, byteSize_append]
    by_cases here : c = '\n'
    · subst here
      have whole : splitEnd (· != '\n') (before ++ ['\n']) = (before ++ ['\n'], []) := by
        have parts : splitEnd (· != '\n') ((before ++ ['\n']) ++ []) = (before ++ ['\n'], []) :=
          splitEnd_append_of_last (by simp) (by simp)
        rwa [List.append_nil] at parts
      rw [lineStart, whole, byteSize_append]
      rfl
    · have same : (splitEnd (· != '\n') (before ++ [c])).1 = (splitEnd (· != '\n') before).1 := by
        have parts := splitEnd_append (· != '\n') before
        have ending : ∀ d ∈ (splitEnd (· != '\n') before).2 ++ [c], (d != '\n') = true := by
          intro d hd
          rcases List.mem_append.1 hd with hd | hd
          · exact splitEnd_ending d hd
          · simpa [List.mem_singleton.1 hd] using here
        have body : ∀ d ∈ (splitEnd (· != '\n') before).1.getLast?, (d != '\n') = false :=
          splitEnd_body
        have longer := splitEnd_append_of_last body ending
        rw [← List.append_assoc, parts] at longer
        rw [longer]
      rw [lineStart, same]
      simp only [Position.advance, here, if_false, byteSize] at ih ⊢
      rw [lineStart] at ih
      omega

theorem positionOf_byteSize (before after : Text) :
    positionOf (before ++ after) (byteSize before) = .ok (.after before) := by
  have whole := lineStart_add_column before
  have column : byteSize before - lineStart before = (Position.after before).column := by omega
  rw [positionOf, cut_byteSize, ok_bind]
  dsimp only
  rw [minus_of_le (by omega), ok_bind, column, ← Position.after_line]
  rfl

theorem lineFeeds_getElem? (offset number : Nat) (text : Text) :
    ((lineFeeds offset text)[number]?).map (· + 1) =
      (Position.lineOffset? (number + 1) text).map (offset + ·) := by
  induction text generalizing offset number with
  | nil => rfl
  | cons c rest ih =>
    by_cases here : c = '\n'
    · subst here
      cases number with
      | zero => simp [lineFeeds, Position.lineOffset?, Char.utf8Size]
      | succ number =>
        have below := ih (offset + Char.utf8Size '\n') number
        simp [lineFeeds, Position.lineOffset?, below, Function.comp_def, Nat.add_assoc]
    · have below := ih (offset + c.utf8Size) number
      simp [lineFeeds, Position.lineOffset?, here, below, Function.comp_def, Nat.add_assoc]

theorem startOf_succ (text : Text) (number : Nat) :
    startOf text (number + 1) = .ok (Position.lineOffset? number text) := by
  cases number with
  | zero =>
    rw [startOf, if_pos rfl, Position.lineOffset?]
    rfl
  | succ number =>
    have start := lineFeeds_getElem? 0 number text
    rw [show (0 + ·) = (id : Nat → Nat) from funext Nat.zero_add, Option.map_id_fun, id] at start
    rw [startOf, if_neg (by omega), ← start, minus_of_le (Nat.le_add_left 2 number)]
    rfl

theorem offsetOf_eq (text : Text) (p : Position) : offsetOf text p = .ok (p.offset? text) := by
  obtain ⟨line, column⟩ := p
  cases line with
  | zero => rfl
  | succ number =>
    rw [offsetOf, if_neg (Nat.succ_ne_zero _), startOf_succ, Position.offset?]
    dsimp only
    cases Position.lineOffset? number text <;> rfl

/-! ## Braces -/

/-- The offset of the brace that closes the last of `depth` open ones, in bytes that start at an
offset. -/
def scanBraces (offset depth : Nat) : List UInt8 → Except Breach (Option Nat)
  | [] => return none
  | b :: rest =>
    if b = '{'.toUInt8 then scanBraces (offset + 1) (depth + 1) rest
    else if b = '}'.toUInt8 then do
      let depth ← minus depth 1
      if depth = 0 then return some offset else scanBraces (offset + 1) depth rest
    else scanBraces (offset + 1) depth rest

def matchBrace (text : Text) (opening : Position) : Except Breach (Option Position) := do
  match ← offsetOf text opening with
  | none => return none
  | some start =>
    if (← nth (bytes text) start) ≠ '{'.toUInt8 then return none
    match ← scanBraces start 0 ((bytes text).drop start) with
    | none => return none
    | some closing => return some (← positionOf text closing)

def findMarker (text : Text) (pattern : Pattern) : Except Breach (Option Position) := do
  match find? pattern text with
  | none => return none
  | some offset => return some (← positionOf text offset)

def exportZone (text marker : Text) : Except Breach (Option ExportZone) := do
  match find? (.literal ['{']) marker with
  | none => return none
  | some brace =>
    match ← findMarker text (.literal marker) with
    | none => return none
    | some first =>
      match ← matchBrace text ⟨first.line, first.column + brace⟩ with
      | none => return none
      | some last =>
        return if first.line < last.line then some ⟨first.line, last.line⟩ else none

theorem scanBraces_other {others : List UInt8} (hopen : '{'.toUInt8 ∉ others)
    (hclose : '}'.toUInt8 ∉ others) (offset depth : Nat) (rest : List UInt8) :
    scanBraces offset depth (others ++ rest) = scanBraces (offset + others.length) depth rest := by
  induction others generalizing offset with
  | nil => rfl
  | cons b others ih =>
    obtain ⟨ho, hopen⟩ := List.ne_and_not_mem_of_not_mem_cons hopen
    obtain ⟨hc, hclose⟩ := List.ne_and_not_mem_of_not_mem_cons hclose
    rw [List.cons_append, scanBraces, if_neg ho.symm, if_neg hc.symm, ih hopen hclose,
      List.length_cons, Nat.add_assoc, Nat.add_comm 1]

/-- With a brace open, the depth does not fall below zero before the partner is found. -/
theorem scanBraces_bytes (offset depth : Nat) (text : Text) :
    scanBraces offset (depth + 1) (bytes text) =
      .ok ((insideBraces? depth text).map (offset + byteSize ·)) := by
  fun_induction insideBraces? depth text generalizing offset with
  | case1 => rfl
  | case2 depth rest ih =>
    have further := ih (offset + 1)
    rw [bytes_cons, utf8EncodeChar_of_ascii openBrace_ascii, List.singleton_append, scanBraces, if_pos rfl,
      further, Option.map_map]
    congr 2
    funext inside
    simp only [Function.comp_apply, byteSize, Nat.add_assoc]
    rfl
  | case3 rest =>
    rw [bytes_cons, utf8EncodeChar_of_ascii closeBrace_ascii, List.singleton_append, scanBraces,
      if_neg (by decide), if_pos rfl, minus_of_le (Nat.le_add_left 1 0), ok_bind]
    rfl
  | case4 rest depth _ ih =>
    have further := ih (offset + 1)
    rw [bytes_cons, utf8EncodeChar_of_ascii closeBrace_ascii, List.singleton_append, scanBraces,
      if_neg (by decide), if_pos rfl, minus_of_le (Nat.le_add_left 1 _), ok_bind, Nat.add_sub_cancel,
      if_neg (Nat.succ_ne_zero _), further, Option.map_map]
    congr 2
    funext inside
    simp only [Function.comp_apply, byteSize, Nat.add_assoc]
    rfl
  | case5 depth c rest ho hc ih =>
    have further := ih (offset + c.utf8Size)
    have hopen : '{'.toUInt8 ∉ String.utf8EncodeChar c := mt (mem_utf8EncodeChar_iff openBrace_ascii).1 ho
    have hclose : '}'.toUInt8 ∉ String.utf8EncodeChar c :=
      mt (mem_utf8EncodeChar_iff closeBrace_ascii).1 hc
    rw [bytes_cons, scanBraces_other hopen hclose, String.length_utf8EncodeChar, further, Option.map_map]
    congr 2
    funext inside
    simp only [Function.comp_apply, byteSize, Nat.add_assoc]

theorem matchBrace_eq (text : Text) (opening : Position) :
    matchBrace text opening = .ok (matchBrace? text opening) := by
  rw [matchBrace, offsetOf_eq, ok_bind]
  cases points : opening.offset? text with
  | none => simp [matchBrace?, points]; rfl
  | some start =>
    have within : start < (bytes text).length := by
      rw [length_bytes]
      exact Position.lt_of_offset? points
    obtain ⟨b, hb⟩ : ∃ b, (bytes text)[start]? = some b := ⟨_, List.getElem?_eq_getElem within⟩
    dsimp only
    rw [nth_of_getElem? hb, ok_bind]
    by_cases brace : b = '{'.toUInt8
    · subst brace
      obtain ⟨front, rest, rfl, rfl⟩ := (getElem?_bytes_iff openBrace_ascii).1 hb
      rw [if_neg (by simp), drop_bytes, bytes_cons, utf8EncodeChar_of_ascii openBrace_ascii,
        List.singleton_append, scanBraces, if_pos rfl, scanBraces_bytes, ok_bind]
      cases found : insideBraces? 0 rest with
      | none => simp [matchBrace?, points, splitAtByte?_byteSize, found]; rfl
      | some inside =>
        obtain ⟨below, rfl⟩ := append_of_insideBraces? found
        have place : byteSize front + 1 + byteSize inside = byteSize (front ++ '{' :: inside) := by
          rw [byteSize_opened, Nat.add_assoc, Nat.add_comm 1]
        have regroup : front ++ '{' :: (inside ++ '}' :: below) =
            (front ++ '{' :: inside) ++ '}' :: below := by simp
        have searched : matchBrace? (front ++ '{' :: (inside ++ '}' :: below)) opening =
            some (.after (front ++ '{' :: inside)) :=
          matchBrace?_split.2 ⟨front, _, inside, rfl, points, found, rfl⟩
        rw [searched, Option.map_some, place, regroup]
        dsimp only
        rw [positionOf_byteSize]
        rfl
    · have missed : matchBrace? text opening = none := by
        cases found : matchBrace? text opening with
        | none => rfl
        | some closing =>
          obtain ⟨front, rest, inside, rfl, points', -, -⟩ := matchBrace?_split.1 found
          obtain rfl := Option.some.inj (points.symm.trans points')
          rw [(getElem?_bytes_iff openBrace_ascii).2 ⟨front, rest, rfl, rfl⟩] at hb
          exact absurd (Option.some.inj hb).symm brace
      rw [if_pos brace, missed]
      rfl

theorem findMarker_eq (text : Text) (pattern : Pattern) :
    findMarker text pattern = .ok (pattern.position? text) := by
  rw [findMarker, find?, Pattern.position?]
  cases found : pattern.split? text with
  | none => rfl
  | some parts =>
    obtain ⟨before, after⟩ := parts
    obtain rfl := Pattern.append_of_split? found
    simp only [Option.map_some]
    rw [positionOf_byteSize]
    rfl

theorem exportZone_eq (text marker : Text) :
    exportZone text marker = .ok (ExportZone.locate? text marker) := by
  rw [exportZone, find?, Pattern.split?, locate?_eq_matchBrace?]
  cases marker.splitBefore? ['{'] with
  | none => rfl
  | some parts =>
    obtain ⟨opening, more⟩ := parts
    simp only [Option.map_some, Option.bind_some, findMarker_eq, ok_bind]
    cases (Pattern.literal marker).position? text with
    | none => rfl
    | some first =>
      simp only [Option.bind_some, matchBrace_eq, ok_bind]
      cases matchBrace? text ⟨first.line, first.column + byteSize opening⟩ <;> rfl

end ComponentForge.Guarded

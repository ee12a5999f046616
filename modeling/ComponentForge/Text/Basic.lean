/-!
# Text

Text is a list of characters, so that every edit is a list operation. Positions that are shown to
a user count bytes of the UTF-8 encoding; `splitAtByte?` is the only way from such an offset back
into a text, and it fails outside the text and inside a character.
-/

namespace ComponentForge

abbrev Text := List Char

namespace Text

/-- Number of bytes of the UTF-8 encoding. -/
def byteSize : Text → Nat
  | [] => 0
  | c :: rest => c.utf8Size + byteSize rest

/-- The texts before and after a byte offset that lies on a character boundary. -/
def splitAtByte? : Nat → Text → Option (Text × Text)
  | 0, text => some ([], text)
  | _ + 1, [] => none
  | n + 1, c :: rest =>
    if c.utf8Size ≤ n + 1 then
      (splitAtByte? (n + 1 - c.utf8Size) rest).map fun (before, after) => (c :: before, after)
    else none

/-- What follows `lead`, if the text begins with it. -/
def after? : Text → (lead : Text) → Option Text
  | text, [] => some text
  | [], _ :: _ => none
  | c :: rest, l :: lead => if c = l then after? rest lead else none

/-- Split at the first place whose remaining text satisfies `found`, the end of the text included. -/
def splitWhere? (found : Text → Bool) : Text → Option (Text × Text)
  | [] => if found [] then some ([], []) else none
  | c :: rest =>
    if found (c :: rest) then some ([], c :: rest)
    else (splitWhere? found rest).map fun (before, after) => (c :: before, after)

/-- Split just before the first occurrence of `needle`. -/
def splitBefore? (text needle : Text) : Option (Text × Text) :=
  splitWhere? (fun rest => (after? rest needle).isSome) text

/-- The texts on both sides of the first occurrence of `needle`, which is left out. -/
def cut? (text needle : Text) : Option (Text × Text) := do
  let (before, rest) ← text.splitBefore? needle
  let after ← rest.after? needle
  return (before, after)

/-- The pieces between single characters that satisfy `isBoundary`; always one more than there are
such characters. -/
def pieces (isBoundary : Char → Bool) : Text → List Text
  | [] => [[]]
  | c :: rest =>
    if isBoundary c then [] :: pieces isBoundary rest
    else match pieces isBoundary rest with
      | [] => [[c]]
      | piece :: more => (c :: piece) :: more

/-- The pieces with `separator` between neighbours. -/
def join (separator : Text) : List Text → Text
  | [] => []
  | [piece] => piece
  | piece :: more => piece ++ separator ++ join separator more

/-- Cut off the longest run of characters at the end that satisfy `p`. -/
def splitEnd (p : Char → Bool) : Text → Text × Text
  | [] => ([], [])
  | c :: rest =>
    let (body, ending) := splitEnd p rest
    if body.isEmpty && p c then ([], c :: ending) else (c :: body, ending)

def endsWith (c : Char) (text : Text) : Bool :=
  text.getLast? == some c

theorem byteSize_append (a b : Text) : byteSize (a ++ b) = byteSize a + byteSize b := by
  induction a with
  | nil => simp [byteSize]
  | cons c a ih => simp [byteSize, ih, Nat.add_assoc]

theorem splitAtByte?_byteSize (a b : Text) : splitAtByte? (byteSize a) (a ++ b) = some (a, b) := by
  induction a with
  | nil => cases b <;> rfl
  | cons c a ih =>
    have pos := c.utf8Size_pos
    obtain ⟨n, hn⟩ : ∃ n, byteSize (c :: a) = n + 1 :=
      ⟨byteSize (c :: a) - 1, by simp only [byteSize]; omega⟩
    have rest : n + 1 - c.utf8Size = byteSize a := by simp only [byteSize] at hn; omega
    have fits : c.utf8Size ≤ n + 1 := by simp only [byteSize] at hn; omega
    simp [hn, splitAtByte?, rest, ih, fits]

theorem after?_eq_some_iff {text lead rest : Text} :
    after? text lead = some rest ↔ text = lead ++ rest := by
  induction lead generalizing text with
  | nil => simp [after?]
  | cons l lead ih =>
    cases text with
    | nil => simp [after?]
    | cons c text =>
      by_cases h : c = l
      · simp [after?, h, ih]
      · simp [after?, h]

/-- A split loses nothing. -/
theorem append_of_splitWhere? {found : Text → Bool} {text before after : Text}
    (h : splitWhere? found text = some (before, after)) : before ++ after = text := by
  induction text generalizing before after with
  | nil =>
    simp only [splitWhere?] at h
    split at h <;> simp_all
  | cons c rest ih =>
    simp only [splitWhere?] at h
    split at h
    · simp_all
    · obtain ⟨⟨b, a⟩, hb, hab⟩ := Option.map_eq_some_iff.1 h
      obtain ⟨rfl, rfl⟩ := Prod.mk.inj hab
      simp [ih hb]

theorem splitEnd_append (p : Char → Bool) (text : Text) :
    (splitEnd p text).1 ++ (splitEnd p text).2 = text := by
  induction text with
  | nil => rfl
  | cons c rest ih =>
    simp only [splitEnd]
    split
    · rename_i h
      have : (splitEnd p rest).1 = [] := by simp_all
      simp_all
    · simp [ih]

end Text

end ComponentForge

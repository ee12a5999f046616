import ComponentForge.Letter.Alphanumeric
import ComponentForge.Letter.Case
import ComponentForge.Letter.CaseMap

/-!
# Letters

Character classes and case mappings of Unicode. ASCII is decided first, by core's own functions;
the tables hold the rest. A mapping may yield several characters and never yields none.
-/

namespace ComponentForge.Letter

def inSpans (spans : List Span) (c : Char) : Bool :=
  spans.any (·.has c.toNat)

def isAscii (c : Char) : Bool :=
  c.toNat < 128

def isAlphanumeric (c : Char) : Bool :=
  if isAscii c then c.isAlphanum else inSpans alphanumericSpans c

def isUpper (c : Char) : Bool :=
  if isAscii c then c.isUpper else inSpans uppercaseSpans c

def isLower (c : Char) : Bool :=
  if isAscii c then c.isLower else inSpans lowercaseSpans c

/-- The image of a character above ASCII: an expansion, else a shift, else the character itself. -/
def mapped (shifts : List Shift) (expansions : List (Nat × List Nat)) (c : Char) : List Char :=
  match expansions.find? (·.1 == c.toNat) with
  | some (_, n :: more) => Char.ofNat n :: more.map Char.ofNat
  | _ => match shifts.find? (·.span.has c.toNat) with
    | some shift => [Char.ofNat (c.toNat + shift.distance).toNat]
    | none => [c]

def lower (c : Char) : List Char :=
  if isAscii c then [c.toLower] else mapped lowerShifts lowerExpansions c

def upper (c : Char) : List Char :=
  if isAscii c then [c.toUpper] else mapped upperShifts upperExpansions c

theorem mapped_ne_nil (shifts : List Shift) (expansions : List (Nat × List Nat)) (c : Char) :
    mapped shifts expansions c ≠ [] := by
  unfold mapped
  split
  · simp
  · split <;> simp

theorem lower_ne_nil (c : Char) : lower c ≠ [] := by
  unfold lower
  split
  · simp
  · exact mapped_ne_nil _ _ c

theorem upper_ne_nil (c : Char) : upper c ≠ [] := by
  unfold upper
  split
  · simp
  · exact mapped_ne_nil _ _ c

theorem isAlphanumeric_of_isAlphanum {c : Char} (ascii : isAscii c) (h : c.isAlphanum) :
    isAlphanumeric c := by
  simp [isAlphanumeric, ascii, h]

end ComponentForge.Letter

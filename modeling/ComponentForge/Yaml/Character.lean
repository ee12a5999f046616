import ComponentForge.Text.Basic

/-!
# Characters of YAML

The classes on which reading and printing agree. Lines break at a line feed, a carriage return and
three Unicode separators. A stream holds no control characters apart from tabs and line breaks; a
scalar shows only printable characters and writes all others as escapes.
-/

namespace ComponentForge.Yaml

def isBreak (c : Char) : Bool :=
  c == '\n' || c == '\r' || c.toNat == 0x85 || c.toNat == 0x2028 || c.toNat == 0x2029

def isSpaceOrTab (c : Char) : Bool :=
  c == ' ' || c == '\t'

def isWhite (c : Char) : Bool :=
  isSpaceOrTab c || isBreak c

/-- The text ends here or goes on with white space. -/
def atWhite : Text → Bool
  | [] => true
  | c :: _ => isWhite c

/-- The text ends here or goes on with a line break. -/
def atBreak : Text → Bool
  | [] => true
  | c :: _ => isBreak c

/-- A character that a stream may hold. -/
def isAllowed (c : Char) : Bool :=
  let n := c.toNat
  n == 0x09 || n == 0x0A || n == 0x0D || (0x20 ≤ n && n ≤ 0x7E) || n == 0x85 ||
    (0xA0 ≤ n && n ≤ 0xFFFD) || 0x10000 ≤ n

def isPrintable (c : Char) : Bool :=
  let n := c.toNat
  n == 0x0A || (0x20 ≤ n && n ≤ 0x7E) || (0xA0 ≤ n && n ≤ 0xFFFD && n != 0xFEFF) || 0x10000 ≤ n

/-- A character of anchors, directive names and tag handles. -/
def isWordChar (c : Char) : Bool :=
  c.isAlphanum || c == '-' || c == '_'

def byteOrderMark : Char :=
  Char.ofNat 0xFEFF

/-- The text starts with three of the character and then white space or its end. -/
def atTriple (c : Char) : Text → Bool
  | a :: b :: d :: rest => a == c && b == c && d == c && atWhite rest
  | _ => false

/-- A line that starts or ends a document. -/
def atDocumentMark (text : Text) : Bool :=
  atTriple '-' text || atTriple '.' text

def hexValue? (c : Char) : Option Nat :=
  if c.isDigit then some (c.toNat - '0'.toNat)
  else if 'a' ≤ c && c ≤ 'f' then some (c.toNat - 'a'.toNat + 10)
  else if 'A' ≤ c && c ≤ 'F' then some (c.toNat - 'A'.toNat + 10)
  else none

end ComponentForge.Yaml

import ComponentForge.Yaml.Cursor
import ComponentForge.Yaml.Token

/-!
# Directives, anchors and tags

A tag is a handle that a directive explains and a rest in which percent signs escape octets. An
octet of an escape is kept as the character of that number: tags are compared with ASCII names only.
-/

namespace ComponentForge.Yaml

/-- The word characters at the cursor, at least one. -/
def word? (c : Cursor) : Option (Text × Cursor) :=
  let word := c.rest.takeWhile isWordChar
  if word.isEmpty then none else some (word, c.skip word.length)

/-! ## Anchors -/

def closesAnchor (rest : Text) : Bool :=
  atWhite rest || rest.head?.any "?:,]\x7d%@`".toList.contains

/-- The name after the indicator of an anchor or an alias. -/
def anchorName? (c : Cursor) : Option (Text × Cursor) := do
  let (name, c) ← word? (c.skip 1)
  if closesAnchor c.rest then return (name, c) else none

/-! ## Tags -/

def isTagChar (verbatim : Bool) (c : Char) : Bool :=
  isWordChar c || ";/?:@&=+$.%!~*'()".toList.contains c ||
    (verbatim && (c == ',' || c == '[' || c == ']'))

/-- Number of octets after the first one of an encoded character. -/
def moreOctets? (octet : Nat) : Option Nat :=
  if octet < 0x80 then some 0
  else if octet < 0xC0 then none
  else if octet < 0xE0 then some 1
  else if octet < 0xF0 then some 2
  else if octet < 0xF8 then some 3
  else none

def octet? (high low : Char) : Option Nat := do
  return (← hexValue? high) * 16 + (← hexValue? low)

/-- Decode the escapes of a tag; `pending` octets of an encoded character are still to come. -/
def unescape? : (pending : Nat) → Text → Option Text
  | 0, [] => some []
  | _ + 1, [] => none
  | pending, '%' :: high :: low :: rest => do
    let octet ← octet? high low
    let pending ← match pending with
      | 0 => moreOctets? octet
      | n + 1 => if 0x80 ≤ octet && octet < 0xC0 then some n else none
    return Char.ofNat octet :: (← unescape? pending rest)
  | 0, c :: rest => if c == '%' then none else (unescape? 0 rest).map (c :: ·)
  | _ + 1, _ :: _ => none

/-- The characters of a tag at the cursor. -/
def tagText? (verbatim : Bool) (c : Cursor) : Option (Text × Cursor) := do
  let raw := c.rest.takeWhile (isTagChar verbatim)
  return (← unescape? 0 raw, c.skip raw.length)

/-- An exclamation mark, word characters and perhaps a second exclamation mark. -/
def handle? (c : Cursor) : Option (Text × Cursor) :=
  if c.headIs '!' then
    let word := (c.skip 1).rest.takeWhile isWordChar
    let c := c.skip (1 + word.length)
    if c.headIs '!' then some ('!' :: word ++ ['!'], c.skip 1) else some ('!' :: word, c)
  else none

def isClosedHandle (handle : Text) : Bool :=
  1 < handle.length && handle.endsWith '!'

/-- The tag at the cursor: verbatim between angle brackets, with a handle, or with the primary handle
that a single exclamation mark is. -/
def tag? (flow : Bool) (c : Cursor) : Option (Token × Cursor) := do
  let (token, c) ← if (c.skip 1).headIs '<' then do
      let (rest, c) ← tagText? true (c.skip 2)
      if rest.isEmpty || !c.headIs '>' then none
      pure (Token.tag [] rest, c.skip 1)
    else do
      let (handle, c) ← handle? c
      let (rest, c) ← tagText? false c
      if isClosedHandle handle then
        if rest.isEmpty then none
        pure (Token.tag handle rest, c)
      else
        let rest := handle.drop 1 ++ rest
        pure (if rest.isEmpty then Token.tag [] ['!'] else Token.tag ['!'] rest, c)
  if atWhite c.rest || (flow && c.headIs ',') then return (token, c) else none

/-! ## Directives -/

def maxVersionDigits : Nat := 9

def versionNumber? (c : Cursor) : Option (Nat × Cursor) :=
  let digits := c.rest.takeWhile Char.isDigit
  if digits.isEmpty || maxVersionDigits < digits.length then none
  else some (digits.foldl (fun n d => n * 10 + (d.toNat - '0'.toNat)) 0, c.skip digits.length)

def version? (c : Cursor) : Option (Token × Cursor) := do
  let (major, c) ← versionNumber? (c.skipWhile isSpaceOrTab)
  if !c.headIs '.' then none
  let (minor, c) ← versionNumber? (c.skip 1)
  return (.versionDirective major minor, c)

def tagDirective? (c : Cursor) : Option (Token × Cursor) := do
  let (handle, c) ← handle? (c.skipWhile isSpaceOrTab)
  if handle != ['!'] && !isClosedHandle handle then none
  if !(c.head?.any isSpaceOrTab) then none
  let (lead, c) ← tagText? true (c.skipWhile isSpaceOrTab)
  if lead.isEmpty || !atWhite c.rest then none
  return (.tagDirective handle lead, c)

/-- The directive at the cursor, to the end of its line. -/
def directive? (c : Cursor) : Option (Token × Cursor) := do
  let (name, c) ← word? (c.skip 1)
  if !atWhite c.rest then none
  let (token, c) ←
    if name = "YAML".toList then version? c
    else if name = "TAG".toList then tagDirective? c
    else none
  return (token, ← c.skipToLineEnd?)

end ComponentForge.Yaml

import ComponentForge.Yaml.Cursor

/-!
# Block scalars

The lines of a literal or folded block after its header. The header may give the indentation and
what becomes of the line breaks at the end; otherwise the first line that is not empty gives the
indentation, and one line break is kept.
-/

namespace ComponentForge.Yaml.Block

/-- What becomes of the line breaks at the end. -/
inductive Chomping where
  | strip
  | clip
  | keep
deriving DecidableEq

structure Header where
  chomping : Chomping
  /-- Indentation relative to the parent; zero if it is not given. -/
  increment : Nat

def chomping? (c : Char) : Option Chomping :=
  if c == '+' then some .keep else if c == '-' then some .strip else none

def digit? (c : Char) : Option Nat :=
  if c.isDigit then some (c.toNat - '0'.toNat) else none

/-- The marks after the indicator, in either order, and the rest of the line. -/
def header? (c : Cursor) : Option (Header × Cursor) := do
  let (header, c) ← match c.head?.bind chomping? with
    | some chomping =>
      match (c.skip 1).head?.bind digit? with
      | some n => if n = 0 then none else some (Header.mk chomping n, c.skip 2)
      | none => some (Header.mk chomping 0, c.skip 1)
    | none =>
      match c.head?.bind digit? with
      | some n =>
        if n = 0 then none
        else match (c.skip 1).head?.bind chomping? with
          | some chomping => some (Header.mk chomping n, c.skip 2)
          | none => some (Header.mk .clip n, c.skip 1)
      | none => some (Header.mk .clip 0, c)
  let c ← c.skipToLineEnd?
  return (header, c)

/-- Pass empty lines and the indentation of the next line. `indent` is zero as long as it is not
known. Yields the breaks and the widest indentation that was seen; a tab in place of an indentation
is refused. -/
def breaksFrom (indent : Nat) :
    (fuel : Nat) → (widest : Nat) → Text → Cursor → Option (Text × Nat × Cursor)
  | 0, widest, text, c => some (text, widest, c)
  | fuel + 1, widest, text, c =>
    let run := (c.rest.takeWhile (· == ' ')).length
    let c := c.skip (if indent = 0 then run else min run (indent - c.column))
    let widest := max widest c.column
    if (indent = 0 || c.column < indent) && c.headIs '\t' then none
    else match c.takeBreak? with
      | some (b, c) => breaksFrom indent fuel widest (text ++ [b]) c
      | none => some (text, widest, c)

def breaks? (indent : Nat) (c : Cursor) : Option (Text × Nat × Cursor) :=
  breaksFrom indent (c.rest.length + 1) 0 [] c

/-- What has been read of a block: its text, the break after its last line and the empty lines that
follow. -/
structure Part where
  text : Text
  lineBreak : Text
  emptyLines : Text
  /-- The last line started with a blank, so the break after it is not folded. -/
  blankStart : Bool
  cursor : Cursor

/-- The break before the next line, which is folded into a space between lines that do not start
with a blank. -/
def foldBreak (folded : Bool) (part : Part) (blankStart : Bool) : Text :=
  if folded && part.lineBreak == ['\n'] && !part.blankStart && !blankStart then
    if part.emptyLines.isEmpty then [' '] else []
  else part.lineBreak

def readFrom (folded : Bool) (indent : Nat) : (fuel : Nat) → Part → Option Part
  | 0, part => some part
  | fuel + 1, part => do
    let c := part.cursor
    if c.column != indent || c.rest.isEmpty then return part
    let blankStart := c.head?.any isSpaceOrTab
    let line := c.rest.takeWhile (!isBreak ·)
    let text := part.text ++ foldBreak folded part blankStart ++ part.emptyLines ++ line
    let c := c.skip line.length
    let (lineBreak, c) := match c.takeBreak? with
      | some (b, c) => ([b], c)
      | none => ([], c)
    let (emptyLines, _, c) ← breaks? indent c
    readFrom folded indent fuel ⟨text, lineBreak, emptyLines, blankStart, c⟩

/-- The text of the block whose indicator stands at the cursor. `parent` is the number of columns
left of which the block ends, `parent - 1` being the indentation of its parent. -/
def read? (folded : Bool) (parent : Nat) (c : Cursor) : Option (Text × Cursor) := do
  let (header, c) ← header? (c.skip 1)
  let given := if header.increment = 0 then 0 else parent - 1 + header.increment
  let (emptyLines, widest, c) ← breaks? given c
  let indent := if given = 0 then max widest (max parent 1) else given
  let part ← readFrom folded indent (c.rest.length + 1) ⟨[], [], emptyLines, false, c⟩
  let ending := match header.chomping with
    | .strip => []
    | .clip => part.lineBreak
    | .keep => part.lineBreak ++ part.emptyLines
  return (part.text ++ ending, part.cursor)

end ComponentForge.Yaml.Block

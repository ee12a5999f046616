import ComponentForge.Yaml.Character

/-!
# Cursors

The place up to which a stream has been read: the rest of the stream and where it starts. Lines and
columns count from zero, in characters.
-/

namespace ComponentForge.Yaml

structure Cursor where
  rest : Text
  /-- Number of characters read. -/
  index : Nat
  line : Nat
  column : Nat

namespace Cursor

def start (text : Text) : Cursor :=
  ⟨text, 0, 0, 0⟩

/-- Pass `n` characters of the current line. -/
def skip (c : Cursor) (n : Nat) : Cursor :=
  ⟨c.rest.drop n, c.index + n, c.line, c.column + n⟩

def skipWhile (c : Cursor) (p : Char → Bool) : Cursor :=
  c.skip (c.rest.takeWhile p).length

def head? (c : Cursor) : Option Char :=
  c.rest.head?

def headIs (c : Cursor) (x : Char) : Bool :=
  c.rest.head? == some x

/-- Pass a line break and yield the break that a scalar keeps of it. A carriage return and a line
feed after it are one break, and only the two Unicode separators of lines and of paragraphs do not
become a line feed. -/
def takeBreak? (c : Cursor) : Option (Char × Cursor) :=
  match c.rest with
  | '\r' :: '\n' :: rest => some ('\n', ⟨rest, c.index + 2, c.line + 1, 0⟩)
  | b :: rest =>
    if isBreak b then
      let kept := if b == '\r' || b.toNat == 0x85 then '\n' else b
      some (kept, ⟨rest, c.index + 1, c.line + 1, 0⟩)
    else none
  | [] => none

def skipBreak (c : Cursor) : Cursor :=
  match c.takeBreak? with
  | some (_, c) => c
  | none => c

/-- Pass spaces, tabs and a comment up to the end of the line, where nothing else may stand. -/
def skipToLineEnd? (c : Cursor) : Option Cursor :=
  let c := c.skipWhile isSpaceOrTab
  let c := if c.headIs '#' then c.skipWhile (!isBreak ·) else c
  if atBreak c.rest then some c.skipBreak else none

/-- A document mark starts the line. -/
def atDocumentMark (c : Cursor) : Bool :=
  c.column == 0 && Yaml.atDocumentMark c.rest

end Cursor

end ComponentForge.Yaml

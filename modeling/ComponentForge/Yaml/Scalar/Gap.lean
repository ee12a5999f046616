import ComponentForge.Yaml.Cursor

/-!
# Gaps

The white space between two words of a scalar. Spaces and tabs on one line are kept. Of a gap with
line breaks the first break folds into a space, or into nothing if further breaks follow it, which
are kept; the blanks around the breaks are dropped.
-/

namespace ComponentForge.Yaml

inductive Gap where
  | blanks (text : Text)
  /-- The first line break, unless it was escaped, and the breaks after it. -/
  | breaks (first : Option Char) (more : Text)

namespace Gap

def none : Gap :=
  blanks []

def hasBreak : Gap → Bool
  | blanks _ => false
  | breaks .. => true

/-- What a scalar keeps of the gap. -/
def fold : Gap → Text
  | blanks text => text
  | breaks (some '\n') [] => [' ']
  | breaks (some '\n') more => more
  | breaks (some b) more => b :: more
  | breaks .none more => more

def addBlank (c : Char) : Gap → Gap
  | blanks text => blanks (text ++ [c])
  | gap => gap

def addBreak (b : Char) : Gap → Gap
  | blanks _ => breaks (some b) []
  | breaks first more => breaks first (more ++ [b])

/-- Read on in a gap. After a line break a tab left of the column `margin` is refused. -/
def readFrom (margin : Nat) : (fuel : Nat) → Gap → Cursor → Option (Gap × Cursor)
  | 0, gap, c => some (gap, c)
  | fuel + 1, gap, c =>
    match c.head? with
    | .none => some (gap, c)
    | some x =>
      if isSpaceOrTab x then
        if gap.hasBreak && c.column < margin && x == '\t' then Option.none
        else readFrom margin fuel (gap.addBlank x) (c.skip 1)
      else match c.takeBreak? with
        | some (b, c) => readFrom margin fuel (gap.addBreak b) c
        | .none => some (gap, c)

def read? (margin : Nat) (gap : Gap) (c : Cursor) : Option (Gap × Cursor) :=
  readFrom margin (c.rest.length + 1) gap c

end Gap

end ComponentForge.Yaml

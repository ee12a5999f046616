import ComponentForge.Yaml.Scalar.Gap

/-!
# Plain scalars

A plain scalar is a sequence of words. It ends at a colon before white space, at a comment, at a
document mark, at a line that is indented too little, and inside a flow collection at the
punctuation of the collection.
-/

namespace ComponentForge.Yaml.Plain

def isFlowPunctuation (c : Char) : Bool :=
  c == ',' || c == '[' || c == ']' || c == '\x7b' || c == '\x7d'

/-- The word that starts here, possibly empty. In a flow collection a colon right before its
punctuation is refused. -/
def word? (flow : Bool) : Text → Option Text
  | [] => some []
  | c :: rest =>
    if isWhite c then some []
    else if flow && c == ':' && (rest.head?.any fun d => isFlowPunctuation d || d == '?') then none
    else if (c == ':' && atWhite rest) || (flow && isFlowPunctuation c) then some []
    else (word? flow rest).map (c :: ·)

/-- What has been read of a plain scalar: its text, the gap after it and the place after the gap. -/
structure Part where
  text : Text
  gap : Gap
  cursor : Cursor

/-- Read on in a plain scalar whose further lines start at column `margin` or right of it. -/
def readFrom (flow : Bool) (margin : Nat) : (fuel : Nat) → Part → Option Part
  | 0, part => some part
  | fuel + 1, part => do
    let c := part.cursor
    if c.atDocumentMark || c.headIs '#' then return part
    let word ← word? flow c.rest
    let part := if word.isEmpty then part
      else ⟨part.text ++ part.gap.fold ++ word, .none, c.skip word.length⟩
    if part.cursor.rest.isEmpty || !atWhite part.cursor.rest then return part
    let (gap, c) ← Gap.read? margin part.gap part.cursor
    let part : Part := ⟨part.text, gap, c⟩
    if !flow && c.column < margin then return part
    readFrom flow margin fuel part

def read? (flow : Bool) (margin : Nat) (c : Cursor) : Option Part :=
  readFrom flow margin (c.rest.length + 1) ⟨[], .none, c⟩

end ComponentForge.Yaml.Plain

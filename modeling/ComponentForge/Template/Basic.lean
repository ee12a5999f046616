import ComponentForge.Text.Blank

/-!
# Templates

A template is text with placeholders: a variable name between an opening and a closing delimiter,
with white space around it. A text reads as a sequence of characters and placeholders, from left to
right; an opening delimiter without a closing one after it is ordinary text. Values are put in as
they are and never read for placeholders.
-/

namespace ComponentForge

namespace Template

inductive Piece where
  | char (c : Char)
  | placeholder (body : Text)
deriving DecidableEq, Repr

def opening : Text :=
  "<%=".toList

def closing : Text :=
  "%>".toList

/-- The body of the placeholder that begins here. -/
def bodyHere? (text : Text) : Option Text := do
  let rest ← text.after? opening
  let (body, _) ← rest.cut? closing
  return body

/-- Number of characters of a placeholder. -/
def holeLength (body : Text) : Nat :=
  opening.length + body.length + closing.length

/-- The pieces of a text whose first `covered` characters belong to a placeholder already read. -/
def piecesFrom : (covered : Nat) → Text → List Piece
  | _, [] => []
  | covered + 1, _ :: rest => piecesFrom covered rest
  | 0, c :: rest =>
    match bodyHere? (c :: rest) with
    | some body => .placeholder body :: piecesFrom (holeLength body - 1) rest
    | none => .char c :: piecesFrom 0 rest

def pieces (text : Text) : List Piece :=
  piecesFrom 0 text

/-- Names with their values; of two pairs with one name the later counts. -/
abbrev Variables := List (Text × Text)

def Variables.value? (vars : Variables) (name : Text) : Option Text :=
  vars.reverse.lookup name

/-- The text of a piece, or the name of the variable that it lacks. -/
def Piece.fill (vars : Variables) : Piece → Except Text Text
  | char c => .ok [c]
  | placeholder body =>
    match vars.value? body.trim with
    | some value => .ok value
    | none => .error body.trim

/-- Fill in all placeholders, or report the first unknown variable. -/
def render (text : Text) (vars : Variables) : Except Text Text := do
  let filled ← (pieces text).mapM (·.fill vars)
  return filled.flatten

end Template

end ComponentForge

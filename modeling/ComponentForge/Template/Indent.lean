import ComponentForge.Text.Basic

/-!
# Indentation

Built-in templates indent by two spaces per level. Reindenting changes the spaces at the start of
every line but the first, level by level; an odd space is dropped.
-/

namespace ComponentForge.Template

def spacesPerLevel : Nat := 2

def indentation (width spaces : Nat) : Text :=
  List.replicate (spaces / spacesPerLevel * width) ' '

/-- Reindent a text of which `spaces` spaces at the start of a line have been read, or none if it
does not go on in the indentation of a line. -/
def reindentFrom (width : Nat) : (spaces : Option Nat) → Text → Text
  | none, [] => []
  | some n, [] => indentation width n
  | spaces, c :: rest =>
    let next := if c = '\n' then some 0 else none
    match spaces with
    | none => c :: reindentFrom width next rest
    | some n =>
      if c = ' ' then reindentFrom width (some (n + 1)) rest
      else indentation width n ++ c :: reindentFrom width next rest

/-- Reindent a text to `width` spaces per level. A run of `width` spaces is a text that memory can hold,
so the width is below `2 ^ 63`; a wider one is no width to reindent to. -/
def reindent (width : Nat) (text : Text) : Text :=
  reindentFrom width none text

end ComponentForge.Template

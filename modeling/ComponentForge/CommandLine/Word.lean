import ComponentForge.Text.Basic

/-!
# Words

How one argument of a command line is spelled, before anything is known about the options that
exist.
-/

namespace ComponentForge

inductive Word where
  /-- Two dashes alone; every argument after them is a plain one. -/
  | separator
  /-- Two dashes and a name, with the text after the first equals sign as its value. -/
  | long (name : Text) (value : Option Text)
  /-- A dash and letters. -/
  | letters (letters : Text)
  /-- Anything else, a single dash included. -/
  | plain
deriving DecidableEq, Repr

namespace Word

def ofText : Text → Word
  | ['-', '-'] => separator
  | '-' :: '-' :: name =>
    match Text.cut? name ['='] with
    | some (name, value) => long name (some value)
    | none => long name none
  | '-' :: c :: more => letters (c :: more)
  | _ => plain

end Word

end ComponentForge

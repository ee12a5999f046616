import ComponentForge.Letter.Basic
import ComponentForge.Text.Basic

/-!
# Entity kinds

What can be generated and destroyed. A module is a directory; the other kinds are files inside one.
-/

namespace ComponentForge

inductive EntityKind where
  | component
  | container
  | module
  | storybook
deriving DecidableEq, Repr

namespace EntityKind

def all : List EntityKind :=
  [component, container, module, storybook]

def name : EntityKind → Text
  | component => "component".toList
  | container => "container".toList
  | module => "module".toList
  | storybook => "storybook".toList

/-- Names are read without regard to case, and a storybook entry may be called a story. -/
def ofText? (text : Text) : Option EntityKind :=
  let lowered := text.flatMap Letter.lower
  if lowered = "story".toList then some storybook
  else all.find? (·.name == lowered)

/-- The path below a module at which the files of this kind lie. -/
def directory : EntityKind → Text
  | component => "components".toList
  | container => "containers".toList
  | storybook => "components/stories".toList
  | module => []

/-- File name extension of every generated file. -/
def extension : Text :=
  "js".toList

theorem ofText?_name (kind : EntityKind) : ofText? kind.name = some kind := by
  cases kind <;> rfl

/-- What a text that names no kind is told. -/
def unknownMessage (text : Text) : Text :=
  "unknown type '".toList ++ text ++
    "', expected one of: component, container, module, storybook".toList

end EntityKind

end ComponentForge

import ComponentForge.EntityKind
import ComponentForge.EntityName
import ComponentForge.Index.Edit
import ComponentForge.Tree.Walk

/-!
# Failures

Why generating or destroying an entity fails, with the message, the code and the advice that a user
sees. That the pattern of an index entry is refused is not among the reasons, since an escaped identifier
is taken to make a pattern that compiles.
-/

namespace ComponentForge

inductive Failure where
  | invalidName (name : Text) (fault : NameFault)
  | missingModule (name : Text)
  | moduleNotFound (module : Text) (path : Path)
  | unlocatableMarker (path : Path) (marker : Text)
  | unknownVariable (template name : Text)
  | missingTemplate (kind : EntityKind) (test : Bool)
  | access (path : Path) (cause : Cause)
  /-- An edit of the index file at the path left its text. No edit does, so no user sees this. -/
  | outsideText (path : Path)
deriving DecidableEq, Repr

namespace Failure

def ofEditFault (path : Path) : EditFault → Failure
  | .unlocatable marker => unlocatableMarker path marker
  | .outsideText => outsideText path

def message : Failure → Text
  | invalidName name fault => "invalid name '".toList ++ name ++ "': ".toList ++ fault.message
  | missingModule name =>
    "invalid name '".toList ++ name ++ "': a module name is required".toList
  | moduleNotFound module path =>
    "a module named '".toList ++ module ++ "' does not exist at '".toList ++ path.text ++ ['\'']
  | unlocatableMarker path marker =>
    "cannot locate the export block '".toList ++ marker ++ "' in '".toList ++ path.text ++ ['\'']
  | unknownVariable template name =>
    "template '".toList ++ template ++ "' uses unknown variable '".toList ++ name ++ ['\'']
  | missingTemplate kind test =>
    "no ".toList ++ (if test then "test" else "entity").toList ++ " template for '".toList ++
      kind.name ++ ['\'']
  | access path _ => "failed to access '".toList ++ path.text ++ ['\'']
  | outsideText path => "edit outside the text of '".toList ++ path.text ++ ['\'']

def code : Failure → Text
  | invalidName .. => "bija::invalid_name".toList
  | missingModule .. => "bija::missing_module".toList
  | moduleNotFound .. => "bija::module_not_found".toList
  | unlocatableMarker .. => "bija::unlocatable_marker".toList
  | unknownVariable .. | missingTemplate .. => "bija::template".toList
  | access .. => "bija::io".toList
  | outsideText .. => "bija::pattern".toList

def advice? : Failure → Option Text
  | invalidName .. =>
    some "names take the form moduleName:entityName, e.g. core:commentList".toList
  | missingModule name =>
    some ("format the name as moduleName:entityName, e.g. core:".toList ++ name)
  | moduleNotFound module _ =>
    some ("generate it first with `bija generate module ".toList ++ module ++ ['`'])
  | unlocatableMarker .. =>
    some ("the file was left untouched; the export block must span several lines, ".toList ++
      "e.g. `export \x7b` ... `\x7d;`".toList)
  | _ => none

end Failure

end ComponentForge

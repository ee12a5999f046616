import ComponentForge.Change
import ComponentForge.Failure
import ComponentForge.Layout
import ComponentForge.Tree.Access

/-!
# Sessions

A session works on a project tree and keeps the log of what it did. A run that fails leaves the
tree and the log as they are at that point.
-/

namespace ComponentForge

/-- A project: the directory that all its paths are relative to, and its configuration. -/
structure Project where
  root : Path
  config : Config

structure Session where
  tree : Tree
  log : List Change

/-- A part of generating or destroying an entity. -/
abbrev Run := EStateM Failure Session

/-- Outcome of editing an index file. -/
inductive PatchOutcome where
  | updated
  /-- The file had, or lacked, the lines already. -/
  | unchanged
  /-- There is no index file. -/
  | missing
deriving DecidableEq, Repr

namespace Run

/-- Access the tree on behalf of a path of the project, which is the one a failure names. -/
def access {α : Type} (path : Path) (op : Access α) : Run α := fun s =>
  match op s.tree with
  | .ok a t => .ok a { s with tree := t }
  | .error c t => .error (.access path c) { s with tree := t }

def ofExcept {α ε : Type} (fail : ε → Failure) : Except ε α → Run α
  | .ok a => pure a
  | .error e => throw (fail e)

def record (action : Action) (path : Path) : Run Unit :=
  modify fun s => { s with log := s.log ++ [⟨action, path⟩] }

end Run

namespace Project

def exists? (project : Project) (tree : Tree) (path : Path) : Bool :=
  Access.exists? tree (project.root.join path)

def writeOnce (project : Project) (path : Path) (text : Text) : Run Unit := do
  match ← Run.access path (Access.writeOnce (project.root.join path) text) with
  | .written => Run.record .create path
  | .skipped => Run.record .exists path

def createDir (project : Project) (path : Path) : Run Unit := do
  if project.exists? (← get).tree path then Run.record .exists path
  else
    Run.access path (Access.makeDirs (project.root.join path))
    Run.record .create path

/-- Nothing is recorded if nothing was there. -/
def remove (project : Project) (path : Path) : Run Unit := do
  if ← Run.access path (Access.remove (project.root.join path)) then Run.record .remove path

/-- The text of the index file at the path, if there is one. -/
def openIndex? (project : Project) (path : Path) : Run (Option Text) := do
  if project.exists? (← get).tree path then
    return some (← Run.access path (Access.read (project.root.join path)))
  else return none

def saveIndex (project : Project) (path : Path) (content : Text) : Run Unit :=
  Run.access path (Access.write (project.root.join path) content)

/-- Add what the index file lacks of the patch. The text is edited in memory and written once, so
an edit that fails leaves the file as it was. -/
def updateIndex (project : Project) (path : Path) (patch : IndexPatch) : Run PatchOutcome := do
  match ← project.openIndex? path with
  | none => return .missing
  | some content =>
    let edited ← Run.ofExcept (Failure.ofEditFault path) (patch.apply content)
    if edited = content then return .unchanged
    project.saveIndex path edited
    return .updated

/-- Remove what the index file has of the patch. -/
def unpatchIndex (project : Project) (path : Path) (patch : IndexPatch) : Run PatchOutcome := do
  match ← project.openIndex? path with
  | none => return .missing
  | some content =>
    match ← Run.ofExcept (Failure.ofEditFault path) (patch.revert? content) with
    | none => return .unchanged
    | some edited =>
      project.saveIndex path edited
      return .updated

def recordOutcome (path : Path) : PatchOutcome → Run Unit
  | .updated => Run.record .update path
  | .missing => Run.record .missing path
  | .unchanged => pure ()

end Project

end ComponentForge

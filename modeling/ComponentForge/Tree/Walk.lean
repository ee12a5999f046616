import ComponentForge.Path
import ComponentForge.Tree.Basic

/-!
# Walks

A walk takes the steps of a path from the root and ends at a route, following every link on its
way. At most forty links are followed, which bounds walks around a cycle of links.
-/

namespace ComponentForge

/-- Why an access to the tree fails. -/
inductive Cause where
  | notFound
  | notADirectory
  | isADirectory
  | alreadyExists
  /-- A name or a path is too long. -/
  | invalidFilename
  /-- A path contains the null character. -/
  | invalidInput
  /-- A file that is to be read is not text. -/
  | invalidData
  | filesystemLoop
deriving DecidableEq, Repr

namespace Tree

def maxNameSize : Nat := 255

def maxPathSize : Nat := 4096

def maxLinks : Nat := 40

/-- Refuse a path that no tree is asked about. Its size is that of its text as it is written, with
one byte more for the mark of its end. -/
def checkPath (path : Path) : Except Cause Unit :=
  if path.text.contains (Char.ofNat 0) then .error .invalidInput
  else if maxPathSize ≤ path.text.byteSize then .error .invalidFilename
  else .ok ()

/-- Walk from a directory. With `mayCreate` the last name need not exist yet. A link is handed to
`follow` with the directory it stands in and the steps still to go. -/
def walkFrom (t : Tree) (mayCreate : Bool)
    (follow : Route → Text → List Step → Except Cause Route) :
    Route → List Step → Except Cause Route
  | here, [] => .ok here
  | here, .stay :: rest => walkFrom t mayCreate follow here rest
  | here, .up :: rest => walkFrom t mayCreate follow here.dropLast rest
  | here, .name n :: rest =>
    if maxNameSize < n.byteSize then .error .invalidFilename
    else match t.get? (here ++ [n]) with
      | none => if mayCreate && rest.isEmpty then .ok (here ++ [n]) else .error .notFound
      | some .dir => walkFrom t mayCreate follow (here ++ [n]) rest
      | some (.file _) => if rest.isEmpty then .ok (here ++ [n]) else .error .notADirectory
      | some (.link target) => follow here target rest

/-- Walk and follow at most `links` links. No file can be created where a link asks for a
directory. -/
def walkWithin (t : Tree) (mayCreate : Bool) : (links : Nat) → Route → List Step → Except Cause Route
  | 0 => t.walkFrom mayCreate fun _ _ _ => .error .filesystemLoop
  | links + 1 => t.walkFrom mayCreate fun here target rest => do
    let path := Path.mk target
    let start := if path.isAbsolute then [] else here
    if mayCreate && rest.isEmpty && path.asksForDirectory then
      let _ ← walkWithin t false links start path.steps.dropLast
      throw .isADirectory
    else walkWithin t mayCreate links start (path.lookupSteps ++ rest)

/-- The route of what the steps lead to. -/
def walk (t : Tree) (steps : List Step) : Except Cause Route :=
  t.walkWithin false maxLinks [] steps

/-- The route of what the steps lead to or of what would be created there. -/
def walkToCreate (t : Tree) (steps : List Step) : Except Cause Route :=
  t.walkWithin true maxLinks [] steps

/-- The route at which the last step stands. A link that stands there is not followed. -/
def place (t : Tree) (steps : List Step) : Except Cause Route :=
  match steps.getLast? with
  | some (.name n) => do
    let above ← t.walk steps.dropLast
    if t.get? above ≠ some .dir then .error .notADirectory
    else if maxNameSize < n.byteSize then .error .invalidFilename
    else .ok (above ++ [n])
  | _ => t.walk steps

/-- The route of what the path leads to. -/
def resolve (t : Tree) (path : Path) : Except Cause Route := do
  checkPath path
  t.walk path.lookupSteps

/-- Something stands where the path leads, links followed. -/
def reaches (t : Tree) (path : Path) : Bool :=
  match t.resolve path with
  | .ok r => (t.get? r).isSome
  | .error _ => false

def isDir (t : Tree) (steps : List Step) : Bool :=
  match t.walk steps with
  | .ok r => t.get? r == some .dir
  | .error _ => false

end Tree

end ComponentForge

import ComponentForge.Tree.Walk

/-!
# Access to a tree

Reading, writing, making and removing through paths. An access that fails keeps what it had done to
the tree until then, such as parent directories that were made for a file that could not be
written. Whether something exists, and what is removed, is the entry itself; reading and writing
follow links.
-/

namespace ComponentForge

/-- An access to the tree, which may fail after it has changed the tree. -/
abbrev Access := EStateM Cause Tree

namespace Access

def ofExcept {α : Type} (f : Tree → Except Cause α) : Access α := fun t =>
  match f t with
  | .ok a => .ok a t
  | .error c => .error c t

def check (path : Path) : Access Unit :=
  ofExcept fun _ => Tree.checkPath path

/-- The route and node of an entry. -/
def find (path : Path) : Access (Route × Node) :=
  ofExcept fun t => do
    Tree.checkPath path
    let r ← t.place path.lookupSteps
    match t.get? r with
    | some node => return (r, node)
    | none => throw .notFound

/-- Something stands at the path, were it a link that leads nowhere. -/
def exists? (t : Tree) (path : Path) : Bool :=
  match find path t with
  | .ok _ _ => true
  | .error _ _ => false

def read (path : Path) : Access Text :=
  ofExcept fun t => do
    let r ← t.resolve path
    match t.get? r with
    | some (.file (.text text)) => return text
    | some (.file (.bytes _)) => throw .invalidData
    | some _ => throw .isADirectory
    | none => throw .notFound

/-- Make one directory. -/
def makeLast (steps : List Step) : Access Unit := fun t =>
  match t.place steps with
  | .error c => .error c t
  | .ok r =>
    match t.get? r with
    | some _ => .error .alreadyExists t
    | none => .ok () (t.set r .dir)

/-- A directory that is there already is as good as one that was made. -/
def unlessDir (steps : List Step) (make : Access Unit) : Access Unit := fun t =>
  match make t with
  | .ok _ t => .ok () t
  | .error c t => if t.isDir steps then .ok () t else .error c t

/-- Make the directory, and if its parent is missing, the parent before it. -/
def makeAfter (makeParent : Access Unit) (steps : List Step) : Access Unit := fun t =>
  match makeLast steps t with
  | .error .notFound t => (do makeParent; unlessDir steps (makeLast steps)) t
  | .error c t => if t.isDir steps then .ok () t else .error c t
  | .ok _ t => .ok () t

/-- Make all directories along moves that are given from the last to the first. -/
def makeMoves : List Step → Access Unit
  | [] => pure ()
  | step :: above => makeAfter (makeMoves above) (above.reverse ++ [step])

/-- Make a directory and the directories above it. -/
def makeDirs (path : Path) : Access Unit := do
  check path
  if path.steps = [] then pure ()
  else makeAfter (makeMoves path.moves.reverse.tail) path.steps

/-- Make the directories above what the path names. -/
def makeParents (path : Path) : Access Unit := do
  check path.above
  makeMoves path.moves.reverse.tail

/-- The route of the file that a write to the path fills. -/
def fileToWrite (path : Path) : Access Route :=
  ofExcept fun t => do
    Tree.checkPath path
    if path.asksForDirectory then throw .isADirectory
    let r ← t.walkToCreate path.steps
    if t.get? r = some .dir then throw .isADirectory
    return r

/-- Write a text file, after making the directories above it. -/
def write (path : Path) (text : Text) : Access Unit := do
  makeParents path
  let r ← fileToWrite path
  modify (·.set r (.file (.text text)))

/-- Remove the empty directory at the route `r`, to which the steps led before it was emptied. If
they passed through what is gone, the directory stays. It also stays if it was not named by its own
name, but by `.` or by a link with a slash after it. -/
def removeEmpty (r : Route) (steps : List Step) : Access Bool := fun t =>
  let found : Except Cause Tree := match steps.getLast? with
    | some (.name _) => do
      let here ← t.place steps
      if here = r then return t.prune r else throw .notADirectory
    | _ => do
      let _ ← t.walk steps.dropLast
      throw .invalidInput
  match found with
  | .ok t => .ok true t
  | .error .notFound => .ok true t
  | .error c => .error c t

/-- Remove an entry with everything below it; `false` if there was none. -/
def remove (path : Path) : Access Bool := fun t =>
  match find path t with
  | .error .notFound t => .ok false t
  | .error c t => .error c t
  | .ok (r, .dir) t => removeEmpty r path.steps (t.clear r)
  | .ok (r, _) t => .ok true (t.prune r)

inductive WriteResult where
  | written
  | skipped
deriving DecidableEq, Repr

/-- Write a file that users go on editing: only where nothing stands. -/
def writeOnce (path : Path) (text : Text) : Access WriteResult := do
  if exists? (← get) path then return .skipped
  write path text
  return .written

end Access

end ComponentForge

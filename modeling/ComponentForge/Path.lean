import ComponentForge.Text.Basic

/-!
# Paths

A path keeps the text it was written with, because messages show it. Its steps are what a walk
through a tree takes: repeated slashes and the difference between `a/b` and `a//b` are gone, while
`.` and `..` stay, for a walk has to pass the directories that they stand in.
-/

namespace ComponentForge

inductive Step where
  | stay
  | up
  | name (name : Text)
deriving DecidableEq, Repr

structure Path where
  text : Text
deriving DecidableEq, Repr

namespace Path

def ofString (s : String) : Path :=
  ⟨s.toList⟩

def isAbsolute (path : Path) : Bool :=
  path.text.head? == some '/'

/-- The right path below the left one; an absolute right path stands for itself. -/
def join (base path : Path) : Path :=
  if path.isAbsolute then path
  else if base.text.isEmpty || base.text.endsWith '/' then ⟨base.text ++ path.text⟩
  else ⟨base.text ++ '/' :: path.text⟩

def step? (piece : Text) : Option Step :=
  if piece = [] then none
  else if piece = ['.'] then some .stay
  else if piece = ['.', '.'] then some .up
  else some (.name piece)

def stepsOf (text : Text) : List Step :=
  (text.pieces (· == '/')).filterMap step?

def steps (path : Path) : List Step :=
  stepsOf path.text

/-- A path that ends in a slash names a directory only. -/
def endsInSlash (path : Path) : Bool :=
  path.text.endsWith '/'

/-- A name comes last, with a slash after it. -/
def asksForDirectory (path : Path) : Bool :=
  path.endsInSlash && match path.steps.getLast? with
    | some (.name _) => true
    | _ => false

/-- The steps to what the path names; a final slash asks it to be a directory. -/
def lookupSteps (path : Path) : List Step :=
  if path.endsInSlash then path.steps ++ [.stay] else path.steps

/-- The steps without those that stay. -/
def moves (path : Path) : List Step :=
  path.steps.filter (· != .stay)

/-- Between two slashes there is nothing, or a step that stays. -/
def isIdle (piece : Text) : Bool :=
  piece == [] || piece == ['.']

/-- The path to what stands above, as it is written: without the last move and without the idle
pieces around it. It is empty if nothing but idle pieces comes before the last move. -/
def above (path : Path) : Path :=
  let pieces := path.text.pieces (· == '/')
  ⟨Text.join ['/'] ((pieces.reverse.dropWhile isIdle).tail.dropWhile isIdle).reverse⟩

/-- The path as a report shows it. Of a path that starts with `.` the steps that stay are left out
at both ends; any other path is shown as it is. -/
def display (path : Path) : Text :=
  match path.text.pieces (· == '/') with
  | ['.'] :: pieces => Text.join ['/'] ((pieces.dropWhile isIdle).reverse.dropWhile isIdle).reverse
  | _ => path.text

end Path

end ComponentForge

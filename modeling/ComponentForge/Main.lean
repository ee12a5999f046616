import ComponentForge.CommandLine.Run
import Std.Data.HashMap

/-!
# The program

The working directory is loaded as a tree, the command line is run on it, and what the run changed
is written back. The tree ends at the working directory, so a project that reaches beyond it is
refused.
-/

namespace ComponentForge.Program

/-- The steps never lead above the directory at this depth. -/
def staysInside : (depth : Nat) → List Step → Bool
  | _, [] => true
  | depth, .stay :: steps => staysInside depth steps
  | 0, .up :: _ => false
  | depth + 1, .up :: steps => staysInside depth steps
  | depth, .name _ :: steps => staysInside (depth + 1) steps

def isInside (path : Path) : Bool :=
  !path.isAbsolute && staysInside 0 path.steps

/-- A file of that name may be read: an index file or the configuration. -/
def isRead (i : Invocation) (name : Text) : Bool :=
  name == Layout.indexFile.text || i.config.steps.getLast? == some (.name name)

/-- Stands for the content of a file that is not read. It is no text, so nothing takes it for one. -/
def unread : Content :=
  .bytes [0xFF]

/-- What a link with that name leads to, as a path of the tree. A link that leads out of the tree or
nowhere is taken to lead to itself, so that nothing is written through it. -/
def linkTarget (top : Text) (name : Text) (real : Option Text) : Text :=
  match real.bind (·.after? top) with
  | some [] => ['/']
  | some ('/' :: rest) => '/' :: rest
  | _ => name

/-- Load the entries of a directory, which lies at the route below the top. -/
partial def load (i : Invocation) (top : Text) (route : Route) (entries : Array IO.FS.DirEntry)
    (loaded : List (Route × Node)) : IO (List (Route × Node)) := do
  let mut loaded := loaded
  for entry in entries do
    let name := entry.fileName.toList
    let here := route ++ [name]
    match (← entry.path.symlinkMetadata).type with
    | .dir => loaded ← load i top here (← entry.path.readDir) ((here, .dir) :: loaded)
    | .symlink =>
      let real ← try pure (some (← IO.FS.realPath entry.path).toString.toList) catch _ => pure none
      loaded := (here, .link (linkTarget top name real)) :: loaded
    | _ =>
      let content ← if isRead i name then Content.ofBytes <$> IO.FS.readBinFile entry.path
        else pure unread
      loaded := (here, .file content) :: loaded
  return loaded

def fileName (route : Route) : String :=
  String.ofList (Text.join ['/'] route)

/-- The nodes of a tree by the names of their files. -/
def byName (tree : Tree) : Std.HashMap String Node :=
  tree.entries.foldl (fun nodes e => nodes.insert (fileName e.1) e.2) ∅

/-- Remove what is gone, from the inside out, then make what is new, from the outside in. -/
def writeBack (old new : Tree) : IO Unit := do
  let before := byName old
  let after := byName new
  let gone := old.entries.filter fun e => !after.contains (fileName e.1)
  for (route, node) in gone.mergeSort fun a b => b.1.length.ble a.1.length do
    if node = .dir then IO.FS.removeDir (fileName route) else IO.FS.removeFile (fileName route)
  let made := new.entries.filter fun e => before[fileName e.1]? != some e.2
  for (route, node) in made.mergeSort fun a b => a.1.length.ble b.1.length do
    match node with
    | .dir => IO.FS.createDirAll (fileName route)
    | .file (.text text) => IO.FS.writeFile (fileName route) (String.ofList text)
    | _ => pure ()

/-- The invocation touches nothing beyond the top of the tree. -/
def isConfined (i : Invocation) (tree : Tree) : Bool :=
  isInside i.configPath && match Config.load tree i.configPath with
    | .ok config => isInside (i.root.join ⟨config.modulesPath⟩)
    | .error _ => true

def refusal : Refusal → Text
  | .unexpected argument => "unexpected argument '".toList ++ argument ++ ['\'']
  | .missingValue slot => "a value is required for ".toList ++ slot.label
  | .badValue slot value => "invalid value '".toList ++ value ++ "' for ".toList ++ slot.label
  | .repeated name => name ++ " was given more than once".toList
  | .missingSlot slot => slot.label ++ " was not given".toList
  | .missingCommand => "a command was not given".toList

/-- How a command is called. -/
def usage (command : CommandName) : Text :=
  let switch := match command.switch? with
    | some s => " [-".toList ++ s.letter :: "|--".toList ++ s.name ++ [']']
    | none => []
  let slots := command.slots.flatMap fun slot => ' ' :: slot.label
  "bija ".toList ++ command.name ++ switch ++ slots ++ ['\n']

def help (command : Option CommandName) : Text :=
  "Usage:\n".toList ++ (command.elim CommandName.all ([·])).flatMap usage ++
    "Options:\n  --root DIR\n  --config FILE\n".toList

/-- The names of the commands, for any shell to choose from. -/
def completions (_ : Shell) : Text :=
  CommandName.all.flatMap fun command => command.name ++ ['\n']

/-- A console that has plain texts for all that is not the program's own. -/
def console (isTerminal : Bool) (confirm : Text → Except Text Bool) : Console :=
  { isTerminal, confirm, help, completions, refusal }

def ask (question : Text) : IO (Except Text Bool) := do
  let input ← IO.getStdin
  if !(← input.isTty) then return .error "not a terminal".toList
  IO.eprint (String.ofList (question ++ " [y/N] ".toList))
  let answer ← input.getLine
  return .ok ((answer.toList.head?.map Char.toLower) == some 'y')

/-- Run an invocation. It asks one question at most and does nothing before it, so a run without an
answer tells the question. -/
def runAsking (i : Invocation) (tree : Tree) : IO Outcome := do
  let isTerminal ← (← IO.getStdin).isTty
  let unanswered := i.run (console isTerminal Except.error) tree
  match unanswered.complaint with
  | some (.unconfirmed question) =>
    let answer ← ask question
    return i.run (console isTerminal fun _ => answer) tree
  | _ => return unanswered

def finish (outcome : Outcome) : IO UInt32 := do
  IO.print (String.ofList outcome.printed)
  if let some complaint := outcome.complaint then
    IO.eprintln (String.ofList (complaint.message (console false Except.error)))
    if let some cause := complaint.cause? then IO.eprintln ("  cause: " ++ String.ofList cause)
    if let some advice := complaint.advice? then IO.eprintln ("  help: " ++ String.ofList advice)
  return outcome.status.toUInt32

end ComponentForge.Program

open ComponentForge Program in
def main (args : List String) : IO UInt32 := do
  let args := args.map (·.toList)
  match Request.ofArguments args with
  | .ok (.invoke i) =>
    let top ← IO.FS.realPath "."
    let tree := Tree.mk (← load i top.toString.toList [] (← top.readDir) [])
    if !isConfined i tree then
      IO.eprintln "the project has to lie below the working directory"
      return 1
    let outcome ← runAsking i tree
    writeBack tree outcome.tree
    finish outcome
  | _ => finish (runArguments (console false Except.error) .empty args)

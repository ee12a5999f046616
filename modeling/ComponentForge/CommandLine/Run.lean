import ComponentForge.CommandLine.Console
import ComponentForge.CommandLine.Report
import ComponentForge.Config.Outline
import ComponentForge.Generator.Entity

/-!
# Runs of the command line

A run takes a request and a tree to an exit status, to what is printed and to the tree afterwards. A
command that would need consent and has none asks for it at the console before it does anything.
-/

namespace ComponentForge

structure Outcome where
  status : Nat
  /-- What goes to standard output. -/
  printed : Text
  /-- What standard error tells about. -/
  complaint : Option Complaint
  tree : Tree

namespace Outcome

def done (tree : Tree) (printed : Text) : Outcome :=
  ⟨0, printed, none, tree⟩

/-- The command failed; what it had printed and done until then stays. -/
def failed (tree : Tree) (printed : Text) (complaint : Complaint) : Outcome :=
  ⟨1, printed, some complaint, tree⟩

/-- The arguments were refused. -/
def refused (tree : Tree) (refusal : Refusal) : Outcome :=
  ⟨2, [], some (.refused refusal), tree⟩

end Outcome

/-- Go on only after a yes. A no is a good end and is told; without an answer the run fails. -/
def Console.askFirst (console : Console) (tree : Tree) (question declined : Text) (go : Outcome) :
    Outcome :=
  match console.confirm question with
  | .error cause => .failed tree [] (.unconfirmed cause)
  | .ok false => .done tree (declined ++ ['\n'])
  | .ok true => go

namespace Invocation

/-- An absolute path of the configuration file stands for itself. -/
def configPath (i : Invocation) : Path :=
  i.root.join i.config

def withConfig (i : Invocation) (tree : Tree) (go : Config → Outcome) : Outcome :=
  match Config.load tree i.configPath with
  | .error f => .failed tree [] (.config f)
  | .ok config => go config

/-- Run on the project; the report is printed even if the run fails on its way. -/
def runOnProject (i : Invocation) (tree : Tree) (config : Config) (run : Project → Run Unit) :
    Outcome :=
  match run ⟨i.root, config⟩ ⟨tree, []⟩ with
  | .ok _ s => .done s.tree (Change.report s.log)
  | .error f s => .failed s.tree (Change.report s.log) (.project f)

def runGenerate (i : Invocation) (tree : Tree) (kind : EntityKind) (name : Text) (useClass : Bool) :
    Outcome :=
  i.withConfig tree fun config =>
    i.runOnProject tree config fun project => project.generate kind name useClass

/-- A module is destroyed with consent only. The configuration has to be good before that is asked. -/
def runDestroy (console : Console) (i : Invocation) (tree : Tree) (kind : EntityKind) (name : Text)
    (consent : Bool) : Outcome :=
  i.withConfig tree fun config =>
    let go := i.runOnProject tree config fun project => project.destroy kind name
    if kind = .module && !consent then
      console.askFirst tree ("Remove module '".toList ++ name ++ "' and everything in it?".toList)
        "Aborted".toList go
    else go

/-- Write the default configuration, over what is there with consent only. -/
def runInit (console : Console) (i : Invocation) (tree : Tree) (overwrite : Bool) : Outcome :=
  let path := i.configPath
  let go := match Access.write ((Path.ofString ".").join path) Config.default.toYaml tree with
    | .ok _ tree => .done tree ("Created ".toList ++ path.text ++ ['\n'])
    | .error cause tree => .failed tree [] (.unwritten path cause)
  if tree.reaches path && !overwrite then
    console.askFirst tree (path.text ++ " already exists. Overwrite it?".toList)
      ("Kept existing ".toList ++ path.text) go
  else go

def run (console : Console) (i : Invocation) (tree : Tree) : Outcome :=
  match i.command with
  | .generate kind name useClass => i.runGenerate tree kind name useClass
  | .destroy kind name consent => i.runDestroy console tree kind name consent
  | .init overwrite => i.runInit console tree overwrite
  | .completions shell => .done tree (console.completions shell)

end Invocation

/-- The name of the program, as users call it, and its version. -/
def version : Text :=
  "bija 0.3.0\n".toList

namespace Request

def run (console : Console) (tree : Tree) : Request → Outcome
  | .help command => .done tree (console.help command)
  | .version => .done tree ComponentForge.version
  | .invoke invocation => invocation.run console tree

end Request

/-- Run the program with its arguments. -/
def runArguments (console : Console) (tree : Tree) (args : List Text) : Outcome :=
  match Request.ofArguments args with
  | .error refusal => .refused tree refusal
  | .ok request => request.run console tree

end ComponentForge

import ComponentForge.CommandLine.Request
import ComponentForge.CommandLine.Word
import ComponentForge.Config.Reader

/-!
# Reading a command line

A command line has two levels, before and after the name of a command. The options that say which
project is meant are read at both levels, once at each, and the inner level wins. Values are checked
only when the next argument settles them, so a command line with two faults is refused for the
first one that is settled. Asking for help or for the version ends the reading, unless a fault came
before it.
-/

namespace ComponentForge

/-- What the arguments leave to be filled with a value. -/
inductive Slot where
  | root
  | config
  | kind
  | name
  | shell
deriving DecidableEq, Repr

namespace Slot

def label : Slot → Text
  | root => "--root".toList
  | config => "--config".toList
  | kind => "TYPE".toList
  | name => "NAME".toList
  | shell => "SHELL".toList

end Slot

/-- Why a command line is refused. -/
inductive Refusal where
  | unexpected (argument : Text)
  | missingValue (slot : Slot)
  | badValue (slot : Slot) (value : Text)
  | repeated (name : Text)
  | missingSlot (slot : Slot)
  | missingCommand
deriving DecidableEq, Repr

/-- Why reading ends before a command is read. -/
inductive Stop where
  | refused (refusal : Refusal)
  | help (command : Option CommandName)
  | version
deriving DecidableEq, Repr

/-- An option without a value. -/
structure Switch where
  letter : Char
  name : Text
deriving DecidableEq, Repr

/-- What a spelling with dashes stands for. -/
inductive Item where
  | valued (slot : Slot)
  | switch (switch : Switch)
  | help
  | version
deriving DecidableEq, Repr

namespace CommandName

/-- The values that a command takes without an option, in their order. -/
def slots : CommandName → List Slot
  | generate | destroy => [.kind, .name]
  | init => []
  | completions => [.shell]

def switch? : CommandName → Option Switch
  | generate => some ⟨'c', "use-class".toList⟩
  | destroy => some ⟨'y', "yes".toList⟩
  | init => some ⟨'f', "force".toList⟩
  | completions => none

end CommandName

namespace Item

/-- The item of a long name at a level: that of a command, or the outer one. -/
def ofLong? (level : Option CommandName) (name : Text) : Option Item :=
  if name = "root".toList then some (valued .root)
  else if name = "config".toList then some (valued .config)
  else if name = "help".toList then some help
  else if name = "version".toList ∧ level = none then some version
  else match level.bind (·.switch?) with
    | some s => if s.name = name then some (switch s) else none
    | none => none

def ofLetter? (level : Option CommandName) (letter : Char) : Option Item :=
  if letter = 'h' then some help
  else if letter = 'V' ∧ level = none then some version
  else match level.bind (·.switch?) with
    | some s => if s.letter = letter then some (switch s) else none
    | none => none

end Item

/-- The values that were given. -/
structure Given where
  root : Option Path
  config : Option Path
  kind : Option EntityKind
  name : Option Text
  shell : Option Shell
  switch : Bool
deriving DecidableEq, Repr

namespace Given

def empty : Given :=
  ⟨none, none, none, none, none, false⟩

/-- Fill a slot with a value that suits it. -/
def fill (g : Given) (slot : Slot) (value : Text) : Except Stop Given :=
  let bad : Except Stop Given := .error (.refused (.badValue slot value))
  let again : Except Stop Given := .error (.refused (.repeated slot.label))
  match slot with
  | .root =>
    if value = [] then bad
    else if g.root.isSome then again
    else .ok { g with root := some ⟨value⟩ }
  | .config =>
    if value = [] then bad
    else if g.config.isSome then again
    else .ok { g with config := some ⟨value⟩ }
  | .kind =>
    match EntityKind.ofText? value with
    | some kind => .ok { g with kind := some kind }
    | none => bad
  | .name => .ok { g with name := some value }
  | .shell =>
    match Shell.ofText? value with
    | some shell => .ok { g with shell := some shell }
    | none => bad

def required {α : Type} (slot : Slot) : Option α → Except Stop α
  | some value => .ok value
  | none => .error (.refused (.missingSlot slot))

/-- The command that the values make up. -/
def command (g : Given) : CommandName → Except Stop Command
  | .generate => do
    return .generate (← required .kind g.kind) (← required .name g.name) g.switch
  | .destroy => do
    return .destroy (← required .kind g.kind) (← required .name g.name) g.switch
  | .init => return .init g.switch
  | .completions => return .completions (← required .shell g.shell)

end Given

/-- The state of reading one level. -/
structure Reading where
  given : Given
  /-- The slots that plain arguments still fill. -/
  slots : List Slot
  /-- The slot that was opened last, with its value as soon as that was read. -/
  opened : Option (Slot × Option Text)
  /-- Every argument is a plain one. -/
  isPlain : Bool
deriving DecidableEq, Repr

namespace Reading

def start (slots : List Slot) : Reading :=
  ⟨.empty, slots, none, false⟩

/-- The next argument is the value of an option. -/
def awaitsValue (r : Reading) : Bool :=
  match r.opened with
  | some (_, none) => true
  | _ => false

/-- Fill the slot that is open. -/
def settle (r : Reading) : Except Stop Reading :=
  match r.opened with
  | none => .ok r
  | some (slot, none) => .error (.refused (.missingValue slot))
  | some (slot, some value) => do
    return { r with given := ← r.given.fill slot value, opened := none }

def takeItem (level : Option CommandName) (r : Reading) : Item → Except Stop Reading
  | .valued slot => do
    return { ← r.settle with opened := some (slot, none) }
  | .switch s => do
    let r ← r.settle
    if r.given.switch then .error (.refused (.repeated ("--".toList ++ s.name)))
    else return { r with given := { r.given with switch := true } }
  | .help => do
    let _ ← r.settle
    .error (.help level)
  | .version => do
    let _ ← r.settle
    .error .version

def takeLetters (level : Option CommandName) (r : Reading) : Text → Except Stop Reading
  | [] => .ok r
  | letter :: more =>
    match Item.ofLetter? level letter with
    | none => .error (.refused (.unexpected ['-', letter]))
    | some item => do takeLetters level (← r.takeItem level item) more

/-- Open the next slot with the argument as its value. -/
def takePlain (r : Reading) (arg : Text) : Except Stop Reading := do
  let r ← r.settle
  match r.slots with
  | [] => .error (.refused (.unexpected arg))
  | slot :: slots => return { r with slots, opened := some (slot, some arg) }

/-- Take one argument. -/
def take (level : Option CommandName) (r : Reading) (arg : Text) : Except Stop Reading :=
  if r.isPlain then r.takePlain arg
  else match Word.ofText arg with
    | .separator => .ok { r with isPlain := true }
    | .long name none =>
      match Item.ofLong? level name with
      | some item => r.takeItem level item
      | none => .error (.refused (.unexpected arg))
    | .long name (some value) =>
      match Item.ofLong? level name with
      | some (.valued slot) => do
        let r ← r.settle
        return { r with given := ← r.given.fill slot value }
      | _ => .error (.refused (.unexpected arg))
    | .letters letters => r.takeLetters level letters
    | .plain =>
      match r.opened with
      | some (slot, none) => .ok { r with opened := some (slot, some arg) }
      | _ => r.takePlain arg

end Reading

namespace CommandName

/-- Read the level of a command to its end. -/
def read (command : CommandName) (args : List Text) : Except Stop Given := do
  let r ← args.foldlM (Reading.take (some command)) (.start command.slots)
  return (← r.settle).given

end CommandName

namespace Invocation

/-- The help that is asked for by the command name in front of the arguments. -/
def helpOn : List Text → Stop
  | [] => .help none
  | arg :: rest =>
    match CommandName.ofText? arg, rest with
    | some command, [] => .help (some command)
    | some _, extra :: _ => .refused (.unexpected extra)
    | none, _ => if arg = "help".toList ∧ rest = [] then .help none else .refused (.unexpected arg)

def ofGiven (name : CommandName) (outer inner : Given) : Except Stop Invocation := do
  return {
    root := (inner.root.or outer.root).getD (.ofString ".")
    config := (inner.config.or outer.config).getD Config.fileName
    command := ← inner.command name }

/-- Read on at the outer level. The first argument that names a command, and is neither the value
of an option nor after a separator, opens the inner level; its faults are found before a value that
the outer level has yet to settle. -/
def readFrom : Reading → List Text → Except Stop Invocation
  | _, [] => .error (.refused .missingCommand)
  | r, arg :: rest =>
    if r.isPlain || r.awaitsValue then do readFrom (← r.take none arg) rest
    else if arg = "help".toList then .error (helpOn rest)
    else match CommandName.ofText? arg with
      | none => do readFrom (← r.take none arg) rest
      | some name => do
        let inner ← name.read rest
        ofGiven name (← r.settle).given inner

end Invocation

namespace Request

/-- Read the arguments of a command line. -/
def ofArguments (args : List Text) : Except Refusal Request :=
  match Invocation.readFrom (.start []) args with
  | .ok invocation => .ok (invoke invocation)
  | .error (.help command) => .ok (help command)
  | .error .version => .ok version
  | .error (.refused refusal) => .error refusal

end Request

end ComponentForge

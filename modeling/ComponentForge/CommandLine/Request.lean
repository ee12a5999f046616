import ComponentForge.EntityKind
import ComponentForge.Path

/-!
# Requests

What a command line asks for. A request to run a command says on which project; whether it may
remove a module or overwrite a configuration is part of the command.
-/

namespace ComponentForge

inductive Shell where
  | bash
  | elvish
  | fish
  | powershell
  | zsh
deriving DecidableEq, Repr

namespace Shell

def all : List Shell :=
  [bash, elvish, fish, powershell, zsh]

def name : Shell → Text
  | bash => "bash".toList
  | elvish => "elvish".toList
  | fish => "fish".toList
  | powershell => "powershell".toList
  | zsh => "zsh".toList

def ofText? (text : Text) : Option Shell :=
  all.find? (·.name == text)

theorem ofText?_name (shell : Shell) : ofText? shell.name = some shell := by
  cases shell <;> rfl

end Shell

inductive CommandName where
  | generate
  | destroy
  | init
  | completions
deriving DecidableEq, Repr

namespace CommandName

def all : List CommandName :=
  [generate, destroy, init, completions]

def name : CommandName → Text
  | generate => "generate".toList
  | destroy => "destroy".toList
  | init => "init".toList
  | completions => "completions".toList

/-- The short name of a command that has one. -/
def alias? : CommandName → Option Text
  | generate => some ['g']
  | destroy => some ['d']
  | _ => none

def ofText? (text : Text) : Option CommandName :=
  all.find? fun command => command.name == text || command.alias? == some text

theorem ofText?_name (command : CommandName) : ofText? command.name = some command := by
  cases command <;> rfl

end CommandName

inductive Command where
  | generate (kind : EntityKind) (name : Text) (useClass : Bool)
  /-- Destroying a module takes consent. -/
  | destroy (kind : EntityKind) (name : Text) (consent : Bool)
  /-- Write the default configuration; over an existing one only if `overwrite` says so. -/
  | init (overwrite : Bool)
  | completions (shell : Shell)
deriving DecidableEq, Repr

/-- A command and the project that it works on. -/
structure Invocation where
  root : Path
  /-- Path of the configuration file below the root. -/
  config : Path
  command : Command
deriving DecidableEq, Repr

inductive Request where
  /-- Explain the program, or one of its commands. -/
  | help (command : Option CommandName)
  | version
  | invoke (invocation : Invocation)
deriving DecidableEq, Repr

end ComponentForge

import ComponentForge.Config.Basic
import ComponentForge.EntityKind
import ComponentForge.Text.Blank
import ComponentForge.Tree.Access
import ComponentForge.Yaml.Decode

/-!
# Reading a configuration

A configuration is read as overrides of the defaults. Every key may be missing or null, unknown keys
are passed over, and a key that is given twice is refused.
-/

namespace ComponentForge

namespace CustomTemplate

def ofNode? (d : Yaml.Document) (node : Yaml.Node) : Option CustomTemplate := do
  let fields ← d.fields? node
  let name ← (← Yaml.field? fields "name").bind d.string?
  let text ← (← Yaml.field? fields "text").bind d.string?
  let test ← match ← Yaml.field? fields "test" with
    | some node => d.bool? node
    | none => some false
  return ⟨name, test, text⟩

end CustomTemplate

namespace Overrides

/-- The override of a key, if it is there and not null. -/
def entry? {α : Type} (d : Yaml.Document) (fields : List (Text × Yaml.Node)) (key : String)
    (decode : Yaml.Node → Option α) : Option (Option α) := do
  match ← Yaml.field? fields key with
  | some node => d.optional? decode node
  | Option.none => return Option.none

def ofDocument? (d : Yaml.Document) : Option Overrides := do
  let fields ← d.fields? d.root
  return {
    tabSize := ← entry? d fields "tabSize" d.nat?
    storybook := ← entry? d fields "storybook" d.bool?
    generateComponentTests := ← entry? d fields "generateComponentTests" d.bool?
    generateContainerTests := ← entry? d fields "generateContainerTests" d.bool?
    modulesPath := ← entry? d fields "modulesPath" d.string?
    useIndexFile := ← entry? d fields "useIndexFile" d.bool?
    snakeCaseFileNames := ← entry? d fields "snakeCaseFileNames" d.bool?
    templates := ← entry? d fields "templates" fun node => do
      (← d.items? node).mapM (CustomTemplate.ofNode? d) }

end Overrides

/-- Why a configuration cannot be had. -/
inductive ConfigFailure where
  | unreadable (path : Path) (cause : Cause)
  | unparsable (sourceName : Text)
  | invalid (sourceName : Text) (fault : ConfigFault) (span : Option (Nat × Nat))
deriving DecidableEq, Repr

namespace ConfigFailure

def message : ConfigFailure → Text
  | unreadable path _ => "failed to read '".toList ++ path.text ++ ['\'']
  | unparsable _ => "failed to parse configuration".toList
  | invalid _ fault _ => fault.message

def code : ConfigFailure → Text
  | unreadable .. => "bija::config::io".toList
  | unparsable _ => "bija::config::parse_error".toList
  | invalid .. => "bija::config::validation_error".toList

def advice? : ConfigFailure → Option Text
  | unparsable _ =>
    some "see `bija init` for a configuration with every recognized option".toList
  | _ => none

end ConfigFailure

namespace Config

/-- Path of the configuration file below the project root. -/
def fileName : Path :=
  .ofString ".bija.yaml"

/-- Check the values of a configuration that was read from the source. -/
def check (config : Config) (source sourceName : Text) : Except ConfigFailure Unit :=
  match config.validate with
  | .ok () => .ok ()
  | .error fault => .error (.invalid sourceName fault (fault.span? source))

/-- Read a configuration; a source of white space is one without overrides. -/
def parse (source sourceName : Text) : Except ConfigFailure Config :=
  if source.all isBlank then .ok default
  else
    match (Yaml.read? source).bind Overrides.ofDocument? with
    | none => .error (.unparsable sourceName)
    | some overrides => do
      let config := default.merge overrides
      config.check source sourceName
      return config

/-- Load the configuration at the path. Where nothing can be reached the defaults hold. -/
def load (tree : Tree) (path : Path) : Except ConfigFailure Config :=
  if path.text.isEmpty || !(tree.reaches path) then .ok default
  else
    match Access.read path tree with
    | .ok source _ => parse source path.text
    | .error cause _ => .error (.unreadable path cause)

end Config

end ComponentForge

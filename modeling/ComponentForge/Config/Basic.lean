import ComponentForge.Text.Basic

/-!
# Configuration

A configuration is the defaults with overrides on top. A configured template stands in for the
built-in template of its entity kind and of its flavor, the entity itself or its test.
-/

namespace ComponentForge

structure CustomTemplate where
  /-- Name of the entity kind. -/
  name : Text
  /-- The template is for the test file. -/
  test : Bool
  text : Text
deriving DecidableEq, Repr

structure Config where
  /-- Spaces per level of indentation in generated files. -/
  tabSize : Nat
  /-- Components come with a storybook entry. -/
  storybook : Bool
  generateComponentTests : Bool
  generateContainerTests : Bool
  /-- Directory that holds the modules, relative to the project root. -/
  modulesPath : Text
  /-- Index files are kept in step with what is generated and destroyed. -/
  useIndexFile : Bool
  snakeCaseFileNames : Bool
  templates : List CustomTemplate
deriving DecidableEq, Repr

structure Overrides where
  tabSize : Option Nat
  storybook : Option Bool
  generateComponentTests : Option Bool
  generateContainerTests : Option Bool
  modulesPath : Option Text
  useIndexFile : Option Bool
  snakeCaseFileNames : Option Bool
  templates : Option (List CustomTemplate)
deriving DecidableEq, Repr

namespace Overrides

def none : Overrides :=
  ⟨.none, .none, .none, .none, .none, .none, .none, .none⟩

end Overrides

/-- What is wrong with the values of a configuration. -/
inductive ConfigFault where
  | zeroTabSize
  | unknownTemplate (name : Text)
deriving DecidableEq, Repr

namespace Config

def default : Config where
  tabSize := 2
  storybook := false
  generateComponentTests := false
  generateContainerTests := false
  modulesPath := "src/modules".toList
  useIndexFile := false
  snakeCaseFileNames := false
  templates := []

/-- Entity kinds whose template can be configured. -/
def templateNames : List Text :=
  ["component".toList, "container".toList, "storybook".toList]

def merge (config : Config) (o : Overrides) : Config where
  tabSize := o.tabSize.getD config.tabSize
  storybook := o.storybook.getD config.storybook
  generateComponentTests := o.generateComponentTests.getD config.generateComponentTests
  generateContainerTests := o.generateContainerTests.getD config.generateContainerTests
  modulesPath := o.modulesPath.getD config.modulesPath
  useIndexFile := o.useIndexFile.getD config.useIndexFile
  snakeCaseFileNames := o.snakeCaseFileNames.getD config.snakeCaseFileNames
  templates := o.templates.getD config.templates

/-- The first template that is configured for the kind and the flavor. -/
def customTemplate? (config : Config) (name : Text) (test : Bool) : Option CustomTemplate :=
  config.templates.find? fun t => t.name == name && t.test == test

/-- Templates are checked in their order, after the indentation width. -/
def validate (config : Config) : Except ConfigFault Unit :=
  if config.tabSize = 0 then .error .zeroTabSize
  else match config.templates.find? fun t => !templateNames.contains t.name with
    | some t => .error (.unknownTemplate t.name)
    | none => .ok ()

end Config

namespace ConfigFault

def message : ConfigFault → Text
  | zeroTabSize => "tabSize must be at least 1".toList
  | unknownTemplate name =>
    "unknown template name '".toList ++ name ++ "', expected one of: ".toList ++
      Text.join ", ".toList Config.templateNames

/-- The word to point at in the source of the configuration. -/
def key : ConfigFault → Text
  | zeroTabSize => "tabSize".toList
  | unknownTemplate name => name

/-- Byte offset and byte size of the first occurrence of the key in the source. -/
def span? (fault : ConfigFault) (source : Text) : Option (Nat × Nat) :=
  (source.splitBefore? fault.key).map fun (before, _) => (before.byteSize, fault.key.byteSize)

end ConfigFault

end ComponentForge

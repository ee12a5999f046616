import ComponentForge.Config.Basic
import ComponentForge.EntityKind
import ComponentForge.NamingPolicy
import ComponentForge.Path

/-!
# Layout of a project

Where the files of a module lie. Generating and destroying ask the same functions, so a file is
looked for where it was written. Entity names are given in their file casing.
-/

namespace ComponentForge

def Config.policy (config : Config) : NamingPolicy :=
  ⟨config.snakeCaseFileNames⟩

namespace Layout

def indexFile : Path :=
  .ofString "index.js"

def modulePath (config : Config) (module : Text) : Path :=
  ((Path.ofString ".").join ⟨config.modulesPath⟩).join ⟨module⟩

/-- Directory of the entities of a kind. -/
def entityDir (config : Config) (kind : EntityKind) (module : Text) : Path :=
  match kind with
  | .module => modulePath config module
  | kind => (modulePath config module).join ⟨kind.directory⟩

/-- File name of a container, without extension. -/
def containerStem (config : Config) (entity : Text) : Text :=
  entity ++ (if config.snakeCaseFileNames then "_container" else "Container").toList

def stem (config : Config) (kind : EntityKind) (entity : Text) : Text :=
  match kind with
  | .container => containerStem config entity
  | .storybook => entity ++ ".stories".toList
  | _ => entity

def fileNamed (stem : Text) : Path :=
  ⟨stem ++ '.' :: EntityKind.extension⟩

/-- The file of an entity, or the directory of a module. -/
def outputPath (config : Config) (kind : EntityKind) (entity module : Text) : Path :=
  match kind with
  | .module => modulePath config module
  | kind => (entityDir config kind module).join (fileNamed (stem config kind entity))

def testPath (config : Config) (kind : EntityKind) (entity module : Text) : Path :=
  ((entityDir config kind module).join (.ofString "tests")).join (fileNamed entity)

def indexPath (config : Config) (module : Text) : Path :=
  (modulePath config module).join indexFile

/-- The index file that imports the stories of a module. -/
def storiesIndexPath (config : Config) (module : Text) : Path :=
  (entityDir config .storybook module).join indexFile

def casedFileName (config : Config) (entity : Text) : Text :=
  config.policy.fileName entity

end Layout

end ComponentForge

import ComponentForge.Generator.Session
import ComponentForge.Template.Basic

/-!
# Names of an entity

Everything that is derived from the name a user gives: the module directory, the identifiers and
the file names of the component and of the container around it. A name is resolved before anything
is done; for an entity the module has to exist.
-/

namespace ComponentForge

structure Names where
  moduleDir : Text
  moduleVariable : Text
  componentName : Text
  componentFile : Text
  containerName : Text
  containerFile : Text
deriving DecidableEq, Repr

namespace Names

def derive (config : Config) (module entity : Text) : Names :=
  let componentName := NamingPolicy.identifier entity
  let componentFile := config.policy.fileName entity
  { moduleDir := config.policy.moduleDir module
    moduleVariable := config.policy.moduleVariable module
    componentName := componentName
    componentFile := componentFile
    containerName := componentName ++ "Container".toList
    containerFile := Layout.containerStem config componentFile }

/-- The variables that templates may use. -/
def bindings (names : Names) : Template.Variables :=
  [ ("moduleName".toList, names.moduleVariable),
    ("componentName".toList, names.componentName),
    ("componentFileName".toList, names.componentFile),
    ("containerName".toList, names.containerName),
    ("containerFileName".toList, names.containerFile) ]

end Names

namespace EntityName

def ensureModule (name : EntityName) : Except Failure Text :=
  match name.module with
  | some module => .ok module
  | none => .error (.missingModule name.raw)

end EntityName

namespace Project

/-- The directory of a module that exists. -/
def ensureModuleExists (project : Project) (tree : Tree) (module : Text) : Except Failure Path :=
  match project.config.policy.checkedModuleDir module with
  | .error fault => .error (.invalidName module fault)
  | .ok dir =>
    let path := Layout.modulePath project.config dir
    if project.exists? tree path then .ok path else .error (.moduleNotFound module path)

/-- The names of the entity that `raw` stands for, in a module that exists. -/
def resolveEntity (project : Project) (raw : Text) : Run Names := do
  let policy := project.config.policy
  let name ← Run.ofExcept (.invalidName raw) (EntityName.parse raw)
  let module ← Run.ofExcept id name.ensureModule
  let _ ← Run.ofExcept (.invalidName raw) (policy.checkedModuleDir module)
  Run.ofExcept (.invalidName raw) (policy.checkEntity name.entity)
  let _ ← Run.ofExcept id (project.ensureModuleExists (← get).tree module)
  return Names.derive project.config module name.entity

/-- The directory name of the module that `raw` stands for. -/
def resolveModule (project : Project) (raw : Text) : Run Text := do
  let name ← Run.ofExcept (.invalidName raw) (EntityName.parse raw)
  if name.module.isSome then throw (.invalidName raw .qualifiedModule)
  Run.ofExcept (.invalidName raw) (project.config.policy.checkedModuleDir name.entity)

end Project

end ComponentForge

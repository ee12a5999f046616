import ComponentForge.Casing
import ComponentForge.EntityName

/-!
# Naming policies

How the names of files, identifiers and modules follow from the names that users give. Identifiers
are upper camel case under every policy; files and module directories are snake case under one
policy, and otherwise upper camel case and the name as given.
-/

namespace ComponentForge

structure NamingPolicy where
  snakeCase : Bool
deriving DecidableEq, Repr

namespace NamingPolicy

def fileCasing (policy : NamingPolicy) : Casing :=
  if policy.snakeCase then .snake else .upperCamel

def fileName (policy : NamingPolicy) (entity : Text) : Text :=
  policy.fileCasing.apply entity

def identifier (entity : Text) : Text :=
  Casing.upperCamel.apply entity

def moduleDir (policy : NamingPolicy) (module : Text) : Text :=
  if policy.snakeCase then Casing.snake.apply module else module

/-- The directory of a module whose name has a word left in it. -/
def checkedModuleDir (policy : NamingPolicy) (module : Text) : Except NameFault Text :=
  if (policy.moduleDir module).isEmpty then .error .wordlessModule
  else .ok (policy.moduleDir module)

def checkEntity (policy : NamingPolicy) (entity : Text) : Except NameFault Unit :=
  if (identifier entity).isEmpty || (policy.fileName entity).isEmpty then .error .wordlessEntity
  else .ok ()

/-- The module as templates see it. -/
def moduleVariable (policy : NamingPolicy) (module : Text) : Text :=
  (if policy.snakeCase then Casing.snake else Casing.camel).apply module

end NamingPolicy

end ComponentForge

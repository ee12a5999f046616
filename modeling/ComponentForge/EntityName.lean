import ComponentForge.Text.Blank

/-!
# Entity names

A name is an entity or a module and an entity with a colon between them. Neither part is empty or
holds a path separator, white space or a dot, so that a name never leads out of the modules root.
-/

namespace ComponentForge

/-- What is wrong with a name. -/
inductive NameFault where
  | extraSeparator
  | emptyModule
  | emptyEntity
  | pathSeparator
  | whiteSpace
  | dot
  /-- A module name that its casing leaves nothing of. -/
  | wordlessModule
  | wordlessEntity
  | qualifiedModule
deriving DecidableEq, Repr

namespace NameFault

def message : NameFault → Text
  | extraSeparator => "only one ':' separator is allowed".toList
  | emptyModule => "the module name is empty".toList
  | emptyEntity => "the entity name is empty".toList
  | pathSeparator => "names cannot contain path separators".toList
  | whiteSpace => "names cannot contain whitespace".toList
  | dot => "names cannot contain dots".toList
  | wordlessModule => "the module name has no letters or digits".toList
  | wordlessEntity => "the entity name has no letters or digits".toList
  | qualifiedModule => "a module name cannot be qualified with another module".toList

end NameFault

structure EntityName where
  raw : Text
  module : Option Text
  entity : Text
deriving DecidableEq, Repr

namespace EntityName

def checkPart (part : Text) : Except NameFault Unit :=
  if part.any fun c => c == '/' || c == '\\' then .error .pathSeparator
  else if part.any isBlank then .error .whiteSpace
  else if part.contains '.' then .error .dot
  else .ok ()

def parse (raw : Text) : Except NameFault EntityName := do
  let (module, entity) ← match raw.cut? [':'] with
    | some (module, entity) =>
      if entity.contains ':' then throw .extraSeparator
      if module.isEmpty then throw .emptyModule
      checkPart module
      pure (some module, entity)
    | none => pure (none, raw)
  if entity.isEmpty then throw .emptyEntity
  checkPart entity
  return ⟨raw, module, entity⟩

end EntityName

end ComponentForge

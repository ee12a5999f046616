import ComponentForge.Generator.Names
import ComponentForge.Template.Builtin
import ComponentForge.Template.Indent

/-!
# Generating and destroying entities

A container comes with the component that it wraps, and a component may come with a test and a
storybook entry. Each has its line in an index file. Destroying removes the same files and lines,
and it removes a storybook entry whether or not the configuration still asks for one.
-/

namespace ComponentForge

namespace Index

/-- The text that opens the export zone of a module's index file. -/
def exportMarker : Text :=
  "export \x7b".toList

/-- A fresh index file: an export zone without entries. -/
def fresh : Text :=
  "export \x7b\n\x7d;\n".toList

def entry (identifier : Text) : ExportEntry :=
  ⟨exportMarker, identifier, true⟩

end Index

namespace Names

def componentPatch (names : Names) : IndexPatch where
  importLine := "import ".toList ++ names.componentName ++ " from './components/".toList ++
    names.componentFile ++ "';".toList
  exportEntry := some (Index.entry names.componentName)

def containerPatch (names : Names) : IndexPatch where
  importLine := "import ".toList ++ names.containerName ++ " from './containers/".toList ++
    names.containerFile ++ "';".toList
  exportEntry := some (Index.entry names.containerName)

/-- Stories are imported for their effects only. -/
def storyPatch (names : Names) : IndexPatch where
  importLine := "import './".toList ++ names.componentFile ++ ".stories';".toList
  exportEntry := none

end Names

namespace Project

def entityPath (project : Project) (kind : EntityKind) (names : Names) : Path :=
  Layout.outputPath project.config kind names.componentFile names.moduleDir

def testPath (project : Project) (kind : EntityKind) (names : Names) : Path :=
  Layout.testPath project.config kind names.componentFile names.moduleDir

/-- Fill in the template of the kind and write it where nothing stands yet. Tests keep the
indentation of their template. -/
def writeFromTemplate (project : Project) (kind : EntityKind) (flavor : TemplateFlavor) (path : Path)
    (names : Names) : Run Unit := do
  match Template.choose? project.config kind flavor with
  | none => throw (.missingTemplate kind flavor.isTest)
  | some template =>
    let text ← Run.ofExcept (.unknownVariable kind.name) (Template.render template names.bindings)
    project.writeOnce path
      (if flavor.isTest then text else Template.reindent project.config.tabSize text)

def patchIndex (project : Project) (path : Path) (patch : IndexPatch) : Run Unit := do
  if project.config.useIndexFile then
    recordOutcome path (← project.updateIndex path patch)

def revertIndex (project : Project) (path : Path) (patch : IndexPatch) : Run Unit := do
  if project.config.useIndexFile then
    recordOutcome path (← project.unpatchIndex path patch)

def generateStorybook (project : Project) (names : Names) : Run Unit := do
  project.writeFromTemplate .storybook (.entity false) (project.entityPath .storybook names) names
  project.patchIndex (Layout.storiesIndexPath project.config names.moduleDir) names.storyPatch

def destroyStorybook (project : Project) (names : Names) : Run Unit := do
  project.remove (project.entityPath .storybook names)
  project.revertIndex (Layout.storiesIndexPath project.config names.moduleDir) names.storyPatch

def generateComponent (project : Project) (names : Names) (useClass : Bool) : Run Unit := do
  project.writeFromTemplate .component (.entity useClass) (project.entityPath .component names) names
  project.patchIndex (Layout.indexPath project.config names.moduleDir) names.componentPatch
  if project.config.generateComponentTests then
    project.writeFromTemplate .component .test (project.testPath .component names) names
  if project.config.storybook then
    project.generateStorybook names

def destroyComponent (project : Project) (names : Names) : Run Unit := do
  project.remove (project.entityPath .component names)
  project.remove (project.testPath .component names)
  project.revertIndex (Layout.indexPath project.config names.moduleDir) names.componentPatch
  if project.config.storybook ||
      project.exists? (← get).tree (project.entityPath .storybook names) then
    project.destroyStorybook names

def generateContainer (project : Project) (names : Names) (useClass : Bool) : Run Unit := do
  project.writeFromTemplate .container (.entity useClass) (project.entityPath .container names) names
  project.patchIndex (Layout.indexPath project.config names.moduleDir) names.containerPatch
  if project.config.generateContainerTests then
    project.writeFromTemplate .container .test (project.testPath .container names) names
  project.generateComponent names useClass

def destroyContainer (project : Project) (names : Names) : Run Unit := do
  project.remove (project.entityPath .container names)
  project.remove (project.testPath .container names)
  project.revertIndex (Layout.indexPath project.config names.moduleDir) names.containerPatch
  project.destroyComponent names

/-- Make the directories of a module, and its index files if they are in use. -/
def generateModule (project : Project) (module : Text) : Run Unit := do
  let config := project.config
  let dir := Layout.modulePath config module
  project.createDir dir
  project.createDir (dir.join ⟨EntityKind.component.directory⟩)
  project.createDir (dir.join ⟨EntityKind.container.directory⟩)
  if config.useIndexFile then
    project.writeOnce (Layout.indexPath config module) Index.fresh
  if config.storybook then
    project.createDir (dir.join ⟨EntityKind.storybook.directory⟩)
    if config.useIndexFile then
      project.writeOnce (Layout.storiesIndexPath config module) []

def destroyModule (project : Project) (module : Text) : Run Unit :=
  project.remove (Layout.modulePath project.config module)

/-- Generate the entity of that kind and name. -/
def generate (project : Project) (kind : EntityKind) (raw : Text) (useClass : Bool) : Run Unit := do
  match kind with
  | .module => project.generateModule (← project.resolveModule raw)
  | .component => project.generateComponent (← project.resolveEntity raw) useClass
  | .container => project.generateContainer (← project.resolveEntity raw) useClass
  | .storybook => project.generateStorybook (← project.resolveEntity raw)

/-- Destroy the entity of that kind and name. -/
def destroy (project : Project) (kind : EntityKind) (raw : Text) : Run Unit := do
  match kind with
  | .module => project.destroyModule (← project.resolveModule raw)
  | .component => project.destroyComponent (← project.resolveEntity raw)
  | .container => project.destroyContainer (← project.resolveEntity raw)
  | .storybook => project.destroyStorybook (← project.resolveEntity raw)

end Project

end ComponentForge

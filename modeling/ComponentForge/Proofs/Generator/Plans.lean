import ComponentForge.Proofs.Generator.Jobs
import ComponentForge.Proofs.Generator.Resolve

/-!
# Plans

What each generator does is a list of jobs. Generating has its list from the names and the
configuration alone; in the list of destroying, the jobs for a story may depend on the tree.
-/

namespace ComponentForge

open Layout

/-- Add what the text lacks of the patch, if it lacks anything. -/
def IndexPatch.extend? (patch : IndexPatch) (content : Text) : Except EditFault (Option Text) :=
  (patch.apply content).map fun edited => if edited = content then none else some edited

namespace IndexPatch

variable {patch : IndexPatch} {old new content edited : Text}

theorem extend?_of_apply (h : patch.apply content = .ok edited) :
    patch.extend? content = .ok (if edited = content then none else some edited) := by
  rw [extend?, h]
  rfl

theorem apply_of_extend? (h : patch.extend? old = .ok (some new)) : patch.apply old = .ok new := by
  cases applied : patch.apply old with
  | error fault => simp [extend?, applied, Except.map] at h
  | ok edited =>
    by_cases same : edited = old
    · simp [extend?, applied, Except.map, same] at h
    · simpa [extend?, applied, Except.map, same] using h

theorem extend?_eq_none_iff : patch.extend? old = .ok none ↔ patch.apply old = .ok old := by
  cases applied : patch.apply old with
  | error fault => simp [extend?, applied, Except.map]
  | ok edited => by_cases same : edited = old <;> simp [extend?, applied, Except.map, same]

end IndexPatch

/-- The text of a file from its template. Tests keep the indentation of their template. -/
def Template.fill (config : Config) (kind : EntityKind) (flavor : TemplateFlavor) (names : Names) :
    Except Failure Text :=
  match Template.choose? config kind flavor with
  | none => .error (.missingTemplate kind flavor.isTest)
  | some template =>
    match Template.render template names.bindings with
    | .error name => .error (.unknownVariable kind.name name)
    | .ok text => .ok (if flavor.isTest then text else Template.reindent config.tabSize text)

/-- A template that is not there or asks for what there is not. -/
theorem Template.fill_error {config : Config} {kind : EntityKind} {flavor : TemplateFlavor}
    {names : Names} {failure : Failure} (h : Template.fill config kind flavor names = .error failure) :
    failure = .missingTemplate kind flavor.isTest ∨
      ∃ name, failure = .unknownVariable kind.name name := by
  rw [fill] at h
  split at h
  · exact Or.inl (Except.error.inj h).symm
  · split at h
    · exact Or.inr ⟨_, (Except.error.inj h).symm⟩
    · cases h

namespace Job

/-- Jobs that a setting asks for. -/
def whenSet (flag : Bool) (jobs : List Job) : List Job :=
  if flag then jobs else []

theorem whenSet_sublist (flag : Bool) (jobs : List Job) : (whenSet flag jobs).Sublist jobs := by
  cases flag
  · exact List.nil_sublist jobs
  · exact List.Sublist.refl jobs

theorem mem_whenSet {job : Job} {flag : Bool} {jobs : List Job} :
    job ∈ whenSet flag jobs ↔ flag ∧ job ∈ jobs := by
  cases flag <;> simp [whenSet]

theorem perform_whenSet (project : Project) (flag : Bool) (jobs : List Job) :
    project.perform (whenSet flag jobs) = if flag then project.perform jobs else pure () := by
  cases flag <;> rfl

theorem forall_whenSet {P : Job → Prop} {flag : Bool} {jobs : List Job} (h : ∀ job ∈ jobs, P job) :
    ∀ job ∈ whenSet flag jobs, P job :=
  fun job mem => h job ((whenSet_sublist flag jobs).subset mem)

theorem perform_whenSet_eq_ok_iff {project : Project} {flag : Bool} {jobs : List Job} {s u : Session} :
    project.perform (whenSet flag jobs) s = .ok () u ↔
      flag ∧ project.perform jobs s = .ok () u ∨ flag = false ∧ u = s := by
  cases flag with
  | true => simp [whenSet]
  | false => simp [whenSet, Project.perform, pure_run, eq_comm]

end Job

/-- The kind and the flavor of the template of a file, if it has one. -/
def Spot.template? (useClass : Bool) : Spot → Option (EntityKind × TemplateFlavor)
  | component => some (.component, .entity useClass)
  | componentTest => some (.component, .test)
  | container => some (.container, .entity useClass)
  | containerTest => some (.container, .test)
  | story => some (.storybook, .entity false)
  | index | stories => none

namespace Names

open Job

variable (config : Config) (names : Names)

/-- Add the lines of a patch to an index file, if index files are in use. -/
def extending (spot : Spot) (patch : IndexPatch) : List Job :=
  whenSet config.useIndexFile [.edit (spot.path config names) patch.extend?]

/-- Take the lines of a patch out of an index file, if index files are in use. -/
def withdrawing (spot : Spot) (patch : IndexPatch) : List Job :=
  whenSet config.useIndexFile [.edit (spot.path config names) patch.revert?]

/-- Write a file of an entity from its template. -/
def writing (spot : Spot) (kind : EntityKind) (flavor : TemplateFlavor) : Job :=
  .write (spot.path config names) (Template.fill config kind flavor names)

def removing (spot : Spot) : Job :=
  .remove (spot.path config names)

def storyJobs : List Job :=
  writing config names .story .storybook (.entity false) ::
    extending config names .stories names.storyPatch

def componentJobs (useClass : Bool) : List Job :=
  writing config names .component .component (.entity useClass) ::
    (extending config names .index names.componentPatch ++
      whenSet config.generateComponentTests [writing config names .componentTest .component .test] ++
      whenSet config.storybook (storyJobs config names))

def containerJobs (useClass : Bool) : List Job :=
  writing config names .container .container (.entity useClass) ::
    (extending config names .index names.containerPatch ++
      whenSet config.generateContainerTests [writing config names .containerTest .container .test] ++
      componentJobs config names useClass)

/-- What generating an entity of the kind does. -/
def generation (useClass : Bool) : EntityKind → List Job
  | .component => componentJobs config names useClass
  | .container => containerJobs config names useClass
  | .storybook => storyJobs config names
  | .module => []

def storyRemovals : List Job :=
  removing config names .story :: withdrawing config names .stories names.storyPatch

def componentRemovals : List Job :=
  removing config names .component :: removing config names .componentTest ::
    withdrawing config names .index names.componentPatch

def containerRemovals : List Job :=
  removing config names .container :: removing config names .containerTest ::
    withdrawing config names .index names.containerPatch

/-- What destroying an entity of the kind does before it turns to the story. -/
def removals : EntityKind → List Job
  | .component => componentRemovals config names
  | .container => containerRemovals config names ++ componentRemovals config names
  | .storybook => []
  | .module => []

/-- What destroying an entity of the kind does, with its story or without. -/
def destruction (kind : EntityKind) (storied : Bool) : List Job :=
  removals config names kind ++ whenSet storied (storyRemovals config names)

/-- Generating writes files from their templates and applies the patches of the entity. -/
inductive Assembles (useClass : Bool) (kind : EntityKind) : Job → Prop
  | write {spot : Spot} {subject : EntityKind} {flavor : TemplateFlavor} :
    spot.template? useClass = some (subject, flavor) →
    Assembles useClass kind (names.writing config spot subject flavor)
  | index {patch : IndexPatch} : config.useIndexFile → patch ∈ names.modulePatches kind →
    Assembles useClass kind (.edit (Spot.index.path config names) patch.extend?)
  | stories : config.useIndexFile →
    Assembles useClass kind (.edit (Spot.stories.path config names) names.storyPatch.extend?)

/-- Destroying removes files and withdraws the patches of the entity. -/
inductive Dismantles (config : Config) (names : Names) (kind : EntityKind) (storied : Bool) : Job → Prop
  | remove (spot : Spot) : .remove (spot.path config names) ∈ names.destruction config kind storied →
    Dismantles config names kind storied (.remove (spot.path config names))
  | index {patch : IndexPatch} : config.useIndexFile → patch ∈ names.modulePatches kind →
    Dismantles config names kind storied (.edit (Spot.index.path config names) patch.revert?)
  | stories : config.useIndexFile → storied →
    Dismantles config names kind storied
      (.edit (Spot.stories.path config names) names.storyPatch.revert?)

variable {config names} {useClass storied : Bool} {kind : EntityKind} {job : Job}

theorem assembles_of_mem (h : job ∈ names.generation config useClass kind) :
    names.Assembles config useClass kind job := by
  have story : job ∈ names.storyJobs config → names.Assembles config useClass kind job := by
    intro mem
    rcases List.mem_cons.1 mem with rfl | mem
    · exact .write rfl
    · obtain ⟨used, mem⟩ := mem_whenSet.1 mem
      rw [List.mem_singleton.1 mem]
      exact .stories used
  have entity : ∀ {file test : Spot} {subject : EntityKind} {patch : IndexPatch} {tested : Bool}
      {rest : List Job}, file.template? useClass = some (subject, .entity useClass) →
      test.template? useClass = some (subject, .test) → patch ∈ names.modulePatches kind →
      (job ∈ rest → names.Assembles config useClass kind job) →
      job ∈ names.writing config file subject (.entity useClass) ::
        (names.extending config .index patch ++
          whenSet tested [names.writing config test subject .test] ++ rest) →
      names.Assembles config useClass kind job := by
    intro file test subject patch tested rest templated tests listed others mem
    rcases List.mem_cons.1 mem with rfl | mem
    · exact .write templated
    rcases List.mem_append.1 mem with mem | mem
    · rcases List.mem_append.1 mem with mem | mem
      · obtain ⟨used, mem⟩ := mem_whenSet.1 mem
        rw [List.mem_singleton.1 mem]
        exact .index used listed
      · rw [List.mem_singleton.1 (mem_whenSet.1 mem).2]
        exact .write tests
    · exact others mem
  have component : names.componentPatch ∈ names.modulePatches kind →
      job ∈ names.componentJobs config useClass → names.Assembles config useClass kind job :=
    fun listed => entity rfl rfl listed fun mem => story (mem_whenSet.1 mem).2
  cases kind with
  | module => cases h
  | component => exact component (by simp [modulePatches]) h
  | container =>
    exact entity rfl rfl (by simp [modulePatches]) (component (by simp [modulePatches])) h
  | storybook => exact story h

theorem dismantles_of_mem (h : job ∈ names.destruction config kind storied) :
    names.Dismantles config kind storied job := by
  have removal : ∀ spot, job = names.removing config spot →
      names.Dismantles config kind storied job := by
    rintro spot rfl
    exact .remove spot h
  have entity : ∀ {first second : Spot} {patch : IndexPatch}, patch ∈ names.modulePatches kind →
      job ∈ names.removing config first :: names.removing config second ::
        names.withdrawing config .index patch → names.Dismantles config kind storied job := by
    intro first second patch listed mem
    rcases List.mem_cons.1 mem with same | mem
    · exact removal first same
    rcases List.mem_cons.1 mem with same | mem
    · exact removal second same
    obtain ⟨used, mem⟩ := mem_whenSet.1 mem
    rw [List.mem_singleton.1 mem]
    exact .index used listed
  rcases List.mem_append.1 h with mem | mem
  · cases kind with
    | module => cases mem
    | storybook => cases mem
    | component => exact entity (by simp [modulePatches]) mem
    | container =>
      rcases List.mem_append.1 mem with mem | mem
      · exact entity (by simp [modulePatches]) mem
      · exact entity (by simp [modulePatches]) mem
  · obtain ⟨story, mem⟩ := mem_whenSet.1 mem
    rcases List.mem_cons.1 mem with same | mem
    · exact removal .story same
    · obtain ⟨used, mem⟩ := mem_whenSet.1 mem
      rw [List.mem_singleton.1 mem]
      exact .stories used story

end Names

namespace Config

variable (config : Config) (module : Text)

/-- What generating a module does. -/
def moduleJobs : List Job :=
  .makeDir (modulePath config module) ::
    .makeDir ((modulePath config module).join ⟨EntityKind.component.directory⟩) ::
    .makeDir ((modulePath config module).join ⟨EntityKind.container.directory⟩) ::
    (Job.whenSet config.useIndexFile [.write (indexPath config module) (.ok Index.fresh)] ++
      Job.whenSet config.storybook
        (.makeDir ((modulePath config module).join ⟨EntityKind.storybook.directory⟩) ::
          Job.whenSet config.useIndexFile [.write (storiesIndexPath config module) (.ok [])]))

/-- What holds of each directory and of both index files holds of generating a module. -/
theorem forall_moduleJobs {P : Job → Prop} {config : Config} {module : Text}
    (dir : P (.makeDir (modulePath config module)))
    (below : ∀ kind : EntityKind, kind ≠ .module →
      P (.makeDir ((modulePath config module).join ⟨kind.directory⟩)))
    (index : P (.write (indexPath config module) (.ok Index.fresh)))
    (stories : P (.write (storiesIndexPath config module) (.ok []))) :
    ∀ job ∈ config.moduleJobs module, P job :=
  List.forall_mem_cons.2 ⟨dir, List.forall_mem_cons.2 ⟨below .component (by decide),
    List.forall_mem_cons.2 ⟨below .container (by decide), List.forall_mem_append.2
      ⟨Job.forall_whenSet (List.forall_mem_singleton.2 index),
        Job.forall_whenSet (List.forall_mem_cons.2 ⟨below .storybook (by decide),
          Job.forall_whenSet (List.forall_mem_singleton.2 stories)⟩)⟩⟩⟩⟩

end Config

namespace Project

variable {project : Project} {path : Path} {patch : IndexPatch} {names : Names} {spot : Spot}
  {useClass : Bool} {t u : Tree} {log : List Change}

section Lists

open Job

theorem writeFromTemplate_eq (project : Project) (kind : EntityKind) (flavor : TemplateFlavor)
    (path : Path) (names : Names) : project.writeFromTemplate kind flavor path names =
      (Job.write path (Template.fill project.config kind flavor names)).run project := by
  rw [writeFromTemplate, Job.run, Template.fill]
  cases Template.choose? project.config kind flavor with
  | none => rfl
  | some template =>
    dsimp only
    cases Template.render template names.bindings with
    | error name => rfl
    | ok text => rfl

theorem updateIndex_eq (project : Project) (path : Path) (patch : IndexPatch) :
    (project.updateIndex path patch >>= recordOutcome path) =
      (Job.edit path patch.extend?).run project := by
  simp only [updateIndex, Job.run, bind_assoc]
  refine bind_congr fun content? => ?_
  cases content? with
  | none => rfl
  | some content =>
    simp only [IndexPatch.extend?, bind_assoc]
    cases patch.apply content with
    | error fault => rfl
    | ok edited =>
      by_cases same : edited = content
      · simp [same, Except.map, Run.ofExcept, recordOutcome]
      · simp [same, Except.map, Run.ofExcept, recordOutcome]

theorem unpatchIndex_eq (project : Project) (path : Path) (patch : IndexPatch) :
    (project.unpatchIndex path patch >>= recordOutcome path) =
      (Job.edit path patch.revert?).run project := by
  simp only [unpatchIndex, Job.run, bind_assoc]
  refine bind_congr fun content? => ?_
  cases content? with
  | none => rfl
  | some content =>
    simp only [bind_assoc]
    cases patch.revert? content with
    | error fault => rfl
    | ok edited? => cases edited? <;> simp [Run.ofExcept, recordOutcome]

theorem patchIndex_eq (spot : Spot) (patch : IndexPatch) :
    project.patchIndex (spot.path project.config names) patch =
      project.perform (names.extending project.config spot patch) := by
  rw [Names.extending, perform_whenSet, patchIndex]
  simp only [updateIndex_eq, perform, bind_pure_unit]

theorem revertIndex_eq (spot : Spot) (patch : IndexPatch) :
    project.revertIndex (spot.path project.config names) patch =
      project.perform (names.withdrawing project.config spot patch) := by
  rw [Names.withdrawing, perform_whenSet, revertIndex]
  simp only [unpatchIndex_eq, perform, bind_pure_unit]

theorem generateStorybook_eq (project : Project) (names : Names) :
    project.generateStorybook names = project.perform (names.storyJobs project.config) := by
  rw [generateStorybook, writeFromTemplate_eq, Names.storyJobs, perform, ← patchIndex_eq]
  rfl

theorem generateComponent_eq (project : Project) (names : Names) (useClass : Bool) :
    project.generateComponent names useClass =
      project.perform (names.componentJobs project.config useClass) := by
  rw [generateComponent]
  simp only [Names.componentJobs, perform, perform_append, perform_whenSet, ← patchIndex_eq,
    ← generateStorybook_eq, writeFromTemplate_eq, bind_assoc, bind_pure_unit]
  cases project.config.generateComponentTests <;> simp <;> rfl

theorem generateContainer_eq (project : Project) (names : Names) (useClass : Bool) :
    project.generateContainer names useClass =
      project.perform (names.containerJobs project.config useClass) := by
  rw [generateContainer]
  simp only [Names.containerJobs, perform, perform_append, perform_whenSet, ← patchIndex_eq,
    ← generateComponent_eq, writeFromTemplate_eq, bind_assoc, bind_pure_unit]
  cases project.config.generateContainerTests <;> simp <;> rfl

theorem generateModule_eq (project : Project) (module : Text) :
    project.generateModule module = project.perform (project.config.moduleJobs module) := by
  have filled : ∀ path text, (Job.write path (.ok text)).run project = project.writeOnce path text :=
    fun _ _ => rfl
  rw [generateModule]
  simp only [Config.moduleJobs, perform, perform_append, perform_whenSet, filled, bind_pure_unit]
  cases project.config.useIndexFile <;> cases project.config.storybook <;> simp [Job.run]

theorem destroyModule_eq (project : Project) (module : Text) : project.destroyModule module =
    project.perform [.remove (modulePath project.config module)] := by
  simp only [destroyModule, perform, Job.run, bind_pure_unit]

theorem destroyStorybook_eq (project : Project) (names : Names) :
    project.destroyStorybook names = project.perform (names.storyRemovals project.config) := by
  rw [destroyStorybook, Names.storyRemovals, perform, ← revertIndex_eq]
  rfl

theorem destroyComponent_eq (project : Project) (names : Names) :
    project.destroyComponent names = (do
      project.perform (names.componentRemovals project.config)
      if project.config.storybook ||
          project.exists? (← get).tree (Spot.story.path project.config names) then
        project.perform (names.storyRemovals project.config)) := by
  rw [destroyComponent]
  simp only [Names.componentRemovals, perform, ← revertIndex_eq, ← destroyStorybook_eq, bind_assoc]
  rfl

theorem destroyContainer_eq (project : Project) (names : Names) :
    project.destroyContainer names = (do
      project.perform (names.containerRemovals project.config)
      project.destroyComponent names) := by
  rw [destroyContainer]
  simp only [Names.containerRemovals, perform, ← revertIndex_eq, bind_assoc]
  rfl

end Lists

end Project

end ComponentForge

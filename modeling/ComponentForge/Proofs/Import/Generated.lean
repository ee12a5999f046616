import ComponentForge.Proofs.Generator.Stages
import ComponentForge.Proofs.Import.Lines
import ComponentForge.Proofs.Import.Target

/-!
# Specifiers of what is generated

The file that a specifier of a generated file leads to is written by the same call, and so is the file
that a new import line of an index file leads to. Once the call has succeeded none of them leads to
nothing.
-/

namespace ComponentForge

open Access Layout Specifier ComponentForge.Tree

/-- From the files that are written for an entity, and from the index files, the relative specifiers
lead to the files of the entity. -/
structure Names.SpecifiersLead (config : Config) (names : Names) : Prop where
  files : ∀ useClass spot kind flavor, Spot.template? useClass spot = some (kind, flavor) →
    ∃ text, Template.fill config kind flavor names = .ok text ∧
      (relatives text).map (target (spot.path config names)) =
        spot.subject?.toList.map fun subject =>
          outputPath config subject names.componentFile names.moduleDir
  lines : ∀ kind spot patch, names.entry? kind = some (spot, patch) →
    (relatives patch.importLine).map (target (spot.path config names)) =
      [outputPath config kind names.componentFile names.moduleDir]

/-- Whatever the relative specifiers of created files lead to is there, and also what those lead to
that there are more of in an updated file. -/
structure SpecifiersExist (root : Path) (start : Tree) (added : List Change) (t : Tree) : Prop where
  created : ∀ path, ⟨.create, path⟩ ∈ added → ∃ text, read (root.join path) t = .ok text t ∧
    ∀ specifier ∈ relatives text, Access.exists? t (root.join (target path specifier))
  updated : ∀ path, ⟨.update, path⟩ ∈ added → ∃ old new,
    read (root.join path) start = .ok old start ∧ read (root.join path) t = .ok new t ∧
      ∀ specifier, (relatives old).count specifier < (relatives new).count specifier →
        Access.exists? t (root.join (target path specifier))

namespace Names

variable {config : Config} {names : Names} {raw : Text} {useClass : Bool} {jobs : List Job}
  {job : Job} {kind : EntityKind} {spot : Spot}

theorem Accepted.containerStem (accepted : names.Accepted config raw) :
    names.containerFile = containerStem config names.componentFile := by
  obtain ⟨name, module, dir, -, -, -, -, rfl⟩ := accepted
  rfl

theorem Accepted.specifiersLead (stock : config.templates = []) (accepted : names.Accepted config raw) :
    names.SpecifiersLead config where
  files _ spot kind flavor h := by
    obtain ⟨text, filled, read⟩ := Spot.exists_filled stock accepted h
    refine ⟨text, filled, ?_⟩
    rw [read]
    exact spot.targets accepted.isName_moduleDir accepted.worded accepted.containerStem
  lines _ _ _ h :=
    names.entry_targets accepted.isName_moduleDir accepted.worded accepted.containerStem h

/-- The file of the entity of this kind is written. -/
def Provides (config : Config) (names : Names) (jobs : List Job) (kind : EntityKind) : Prop :=
  ∃ text, .write (outputPath config kind names.componentFile names.moduleDir) text ∈ jobs

/-- The specifier leads to the file of an entity that is written. -/
def Leads (config : Config) (names : Names) (jobs : List Job) (file : Path) (specifier : Text) :
    Prop :=
  ∃ kind, names.Provides config jobs kind ∧
    target file specifier = outputPath config kind names.componentFile names.moduleDir

/-- The job writes a file or extends an index file, and what that is about is written too. -/
inductive Linked (config : Config) (names : Names) (useClass : Bool) (jobs : List Job) : Job → Prop
  | file {spot : Spot} {kind : EntityKind} {flavor : TemplateFlavor} :
    spot.template? useClass = some (kind, flavor) →
    (∀ subject ∈ spot.subject?, names.Provides config jobs subject) →
    Linked config names useClass jobs (names.writing config spot kind flavor)
  | line {kind : EntityKind} {spot : Spot} {patch : IndexPatch} :
    names.entry? kind = some (spot, patch) → names.Provides config jobs kind →
    Linked config names useClass jobs (.edit (spot.path config names) patch.extend?)

theorem linked_storyJobs (sub : names.storyJobs config ⊆ jobs)
    (component : names.Provides config jobs .component) :
    ∀ job ∈ names.storyJobs config, names.Linked config useClass jobs job := by
  have story : names.Provides config jobs .storybook := ⟨_, sub List.mem_cons_self⟩
  refine List.forall_mem_cons.2 ⟨.file rfl ?_, Job.forall_whenSet (List.forall_mem_singleton.2 ?_)⟩
  · rintro subject ⟨rfl⟩
    exact component
  · exact .line (show names.entry? .storybook = some _ from rfl) story

theorem linked_componentJobs (sub : names.componentJobs config useClass ⊆ jobs) :
    ∀ job ∈ names.componentJobs config useClass, names.Linked config useClass jobs job := by
  have component : names.Provides config jobs .component := ⟨_, sub List.mem_cons_self⟩
  refine List.forall_mem_cons.2 ⟨.file rfl (by rintro subject ⟨⟩),
    List.forall_mem_append.2 ⟨List.forall_mem_append.2
      ⟨Job.forall_whenSet (List.forall_mem_singleton.2 ?_),
        Job.forall_whenSet (List.forall_mem_singleton.2 (.file rfl ?_))⟩, ?_⟩⟩
  · exact .line (show names.entry? .component = some _ from rfl) component
  · rintro subject ⟨rfl⟩
    exact component
  · -- the story jobs stand among the given jobs only if the flag that adds them is set
    intro job mem
    obtain ⟨set, mem⟩ := Job.mem_whenSet.1 mem
    refine linked_storyJobs (fun other mem' => sub ?_) component job mem
    exact List.mem_cons_of_mem _ (List.mem_append_right _ (Job.mem_whenSet.2 ⟨set, mem'⟩))

/-- Generating a component or a container writes whatever its files and lines are about. -/
theorem linked_generation (hkind : kind = .component ∨ kind = .container) :
    ∀ job ∈ names.generation config useClass kind,
      names.Linked config useClass (names.generation config useClass kind) job := by
  rcases hkind with rfl | rfl
  · exact linked_componentJobs (List.Subset.refl _)
  · have sub : names.componentJobs config useClass ⊆ names.generation config useClass .container :=
      fun job mem => List.mem_cons_of_mem _ (List.mem_append_right _ mem)
    have container : names.Provides config (names.generation config useClass .container) .container :=
      ⟨_, List.mem_cons_self⟩
    have component : names.Provides config (names.generation config useClass .container) .component :=
      ⟨_, sub List.mem_cons_self⟩
    refine List.forall_mem_cons.2 ⟨.file rfl ?_,
      List.forall_mem_append.2 ⟨List.forall_mem_append.2
        ⟨Job.forall_whenSet (List.forall_mem_singleton.2 ?_),
          Job.forall_whenSet (List.forall_mem_singleton.2 (.file rfl ?_))⟩, linked_componentJobs sub⟩⟩
    · rintro subject ⟨rfl⟩
      exact component
    · exact .line (show names.entry? .container = some _ from rfl) container
    · rintro subject ⟨rfl⟩
      exact container

/-- The index file has specifiers in addition to those of an old text only if they lead to an entity
that is written. -/
def Brings (config : Config) (names : Names) (jobs : List Job) (R : Route) (spot : Spot) (old : Text)
    (t : Tree) : Prop :=
  ∃ text, t.get? (R ++ (spot.path config names).names) = some (.file (.text text)) ∧
    ∀ specifier, (relatives old).count specifier < (relatives text).count specifier →
      names.Leads config jobs (spot.path config names) specifier

section Steps

variable {project : Project} {R : Route} {t u : Tree} {added : List Change}
  {failure : Option Failure} {old : Text} (inside : Inside config.modulesPath)
  (hm : IsName names.moduleDir) (worded : names.Worded) (lead : names.SpecifiersLead config)

include inside hm worded lead

/-- Every linked job leaves an index file so. -/
theorem Linked.brings (untemplated : spot.template? useClass = none)
    (linked : names.Linked config useClass jobs job) (grounded : t.Grounded project.root R)
    (outcome : job.Outcome project t added failure u) (brings : names.Brings config jobs R spot old t) :
    names.Brings config jobs R spot old u := by
  obtain ⟨text, holds, led⟩ := brings
  have down := fun spot => (Spot.descends inside hm worded spot).along_names
  cases linked with
  | @file other kind flavor template _ =>
    have descends : (names.writing config other kind flavor).path.Descends _ := down other
    refine ⟨text, ?_, led⟩
    rw [outcome.get?_of_making grounded descends rfl, holds]
    intro above
    obtain rfl := Spot.eq_of_prefix inside hm worded above
    rw [untemplated] at template
    cases template
  | @line kind other patch entry provided =>
    rcases outcome.edit_cases grounded (down other) with rfl | ⟨before, new, reads, turned, rfl⟩
    · exact ⟨text, holds, led⟩
    · by_cases same : spot = other
      · subst same
        obtain rfl : before = text := by simpa [reads.holds] using holds
        refine ⟨new, by rw [get?_set t reads.ne_nil, if_pos rfl], fun specifier more => ?_⟩
        rcases Nat.lt_or_ge ((relatives before).count specifier) ((relatives new).count specifier) with
          here | earlier
        · have regular : patch.Regular := by
            cases kind with
            | module => cases entry
            | component => obtain ⟨rfl, rfl⟩ := entry; exact worded.regular.component
            | container => obtain ⟨rfl, rfl⟩ := entry; exact worded.regular.container
            | storybook => obtain ⟨rfl, rfl⟩ := entry; exact worded.regular.story
          have adds := IndexPatch.adds_of_apply regular (IndexPatch.apply_of_extend? turned)
          have placed := List.mem_map_of_mem (f := target (spot.path config names))
            (adds.mem_relatives here)
          rw [lead.lines kind spot patch entry] at placed
          exact ⟨kind, provided, List.mem_singleton.1 placed⟩
        · exact led specifier (more.trans_le earlier)
      · refine ⟨text, ?_, led⟩
        rw [get?_set t reads.ne_nil, if_neg, holds]
        exact fun routes => same (Spot.eq_of_names inside hm worded (List.append_cancel_left routes))

end Steps

theorem builtin_of_entry {patch : IndexPatch} (h : names.entry? kind = some (spot, patch)) :
    spot.template? useClass = none := by
  cases kind with
  | module => cases h
  | _ => obtain ⟨rfl, rfl⟩ := h; rfl

section Run

variable {root : Path} {R : Route} {t u : Tree} {added : List Change} {path : Path}
  (stock : config.templates = []) (accepted : names.Accepted config raw)
  (inside : Inside config.modulesPath) (grounded : t.Grounded root R)
  (hkind : kind = .component ∨ kind = .container)
  (performs : Project.Performs ⟨root, config⟩ t (names.generation config useClass kind) added none u)

include accepted inside grounded performs

/-- What leads to a file that the run writes leads to something that is there at its end. -/
theorem Accepted.exists_of_leads {file : Path} {specifier : Text}
    (leads : names.Leads config (names.generation config useClass kind) file specifier) :
    Access.exists? u (root.join (target file specifier)) := by
  obtain ⟨subject, ⟨text, mem⟩, same⟩ := leads
  have building := names.building_generation inside accepted.isName_moduleDir accepted.worded
    useClass kind
  rw [same]
  exact performs.exists_written building.descends (fun job mem => (building.builds job mem).mode)
    grounded mem

include stock hkind

/-- A created file holds the text of its template, since no index file is made from one. -/
theorem Accepted.specifiers_created (mem : ⟨.create, path⟩ ∈ added) :
    ∃ text, read (root.join path) u = .ok text u ∧
      ∀ specifier ∈ relatives text, Access.exists? u (root.join (target path specifier)) := by
  have hm := accepted.isName_moduleDir
  have lead := accepted.specifiersLead stock
  have linked : ∀ job ∈ names.generation config useClass kind,
    names.Linked config useClass _ job := linked_generation hkind
  have building := names.building_generation inside hm accepted.worded useClass kind
  obtain ⟨job, here, stage, mem⟩ := performs.stage_of_change rfl mem
  obtain ⟨same, mode⟩ := stage.recorded mem
  cases linked job stage.mem with
  | line _ _ => cases mode
  | @file spot subject flavor template provided =>
    obtain ⟨text, filled, led⟩ := lead.files _ _ _ _ template
    obtain rfl : spot.path config names = path := same
    rw [writing, filled] at stage
    have unedited : ∀ job ∈ names.generation config useClass kind, job.mode = .editing →
        job.path.names ≠ (spot.path config names).names := by
      intro other hother editing names_eq
      cases linked other hother with
      | file _ _ => cases editing
      | line entry _ =>
        obtain rfl := Spot.eq_of_names inside hm accepted.worded names_eq
        rw [builtin_of_entry entry] at template
        cases template
    refine ⟨text, stage.read_created building.descends
      (fun job mem => (building.builds job mem).mode) grounded mem unedited,
      fun specifier hspecifier => ?_⟩
    have placed := List.mem_map_of_mem (f := target (spot.path config names)) hspecifier
    rw [led] at placed
    obtain ⟨entity, about, leads⟩ := List.mem_map.1 placed
    exact accepted.exists_of_leads inside grounded performs
      ⟨entity, provided entity (Option.mem_toList.1 about), leads.symm⟩

/-- An updated index file has more of a specifier only by a line that the run has added. -/
theorem Accepted.specifiers_updated (mem : ⟨.update, path⟩ ∈ added) :
    ∃ old new, read (root.join path) t = .ok old t ∧ read (root.join path) u = .ok new u ∧
      ∀ specifier, (relatives old).count specifier < (relatives new).count specifier →
        Access.exists? u (root.join (target path specifier)) := by
  have hm := accepted.isName_moduleDir
  have worded := accepted.worded
  have linked : ∀ job ∈ names.generation config useClass kind,
    names.Linked config useClass _ job := linked_generation hkind
  have descends := (names.building_generation inside hm worded useClass kind).descends
  have orderly := names.orderly_generation inside hm worded useClass kind
  have trans : ∀ a b c, Longer a b → Longer b c → Longer a c := fun _ _ _ => Nat.lt_trans
  have traced := Traced.run trans (Traced.refl grounded) (by simp) orderly.apart descends
    orderly.advances performs
  obtain ⟨old, -, was, -, -⟩ := traced.holds _ mem
  obtain ⟨job, here, stage, mem⟩ := performs.stage_of_change rfl mem
  obtain ⟨same, mode⟩ := stage.recorded mem
  cases linked job stage.mem with
  | file _ _ => cases mode
  | @line subject spot patch entry _ =>
    obtain rfl : spot.path config names = path := same
    have down := (Spot.descends inside hm worded spot).along_names
    have fits := stage.fits_updated descends grounded mem
    obtain ⟨grounded', new, now, led⟩ := performs.preserves
      (P := fun v => v.Grounded root R ∧ names.Brings config _ R spot old v)
      (fun job mem t added failure u outcome kept =>
        ⟨outcome.grounded kept.1 (descends job mem),
          (linked job mem).brings inside hm worded (accepted.specifiersLead stock)
            (builtin_of_entry entry) kept.1 outcome kept.2⟩)
      ⟨grounded, old, was, fun _ more => absurd more (Nat.lt_irrefl _)⟩
    exact ⟨old, new, ((grounded.site.readsAt_iff down fits).2 was).read,
      ((grounded'.site.readsAt_iff down fits).2 now).read,
      fun specifier more =>
        accepted.exists_of_leads inside grounded performs (led specifier more)⟩

/-- After a run that has generated a component or a container no new specifier leads to nothing. -/
theorem Accepted.specifiersExist : SpecifiersExist root t added u where
  created _ mem := accepted.specifiers_created stock inside grounded hkind performs mem
  updated _ mem := accepted.specifiers_updated stock inside grounded hkind performs mem

end Run

end Names

/-- Without custom templates, whatever the name is, the relative specifiers of rendered files and
those of import lines lead to the files of the entity. They lead to something that is there, once a
component or a container is generated. -/
theorem Project.specifiers_resolve {root : Path} {R : Route} {tree : Tree} {config : Config}
    {kind : EntityKind} {raw : Text} {useClass : Bool} (stock : config.templates = []) :
    (∀ names : Names, names.Accepted config raw → names.SpecifiersLead config) ∧
      (tree.Grounded root R → Inside config.modulesPath → kind = .component ∨ kind = .container →
        ∀ log u, generate ⟨root, config⟩ kind raw useClass ⟨tree, log⟩ = .ok () u →
          ∃ added, u.log = log ++ added ∧ SpecifiersExist root tree added u.tree) := by
  refine ⟨fun names accepted => accepted.specifiersLead stock, fun grounded inside hkind log u ok => ?_⟩
  have entity : kind ≠ .module := by rcases hkind with rfl | rfl <;> decide
  rw [generate_entity_run entity] at ok
  cases resolved : entityResolution ⟨root, config⟩ raw tree with
  | error failure =>
    rw [resolved] at ok
    cases ok
  | ok names =>
    rw [resolved] at ok
    have accepted := (entityResolution_eq_ok_iff.1 resolved).1
    obtain ⟨added, performs⟩ := performs_of_ok ok
    have ended := (EStateM.Result.ok.inj ((performs.run_eq log).symm.trans ok)).2
    exact ⟨added, (congrArg Session.log ended).symm,
      accepted.specifiersExist stock inside grounded hkind performs⟩

/-- A container in the module with an index file, whose import lines are new. -/
theorem Project.specifiers_resolve_coreTree : testedConfig.templates = [] ∧
    postNames.SpecifiersLead testedConfig ∧ ∃ added u,
      generate ⟨.ofString ".", testedConfig⟩ .container "core:post".toList true ⟨coreTree, []⟩ =
        .ok () u ∧ u.log = [] ++ added ∧ SpecifiersExist (.ofString ".") coreTree added u.tree := by
  have resolve := fun raw => @specifiers_resolve (.ofString ".") [] coreTree testedConfig .container
    raw true rfl
  have succeeded : succeeds (generate ⟨.ofString ".", testedConfig⟩ .container "core:post".toList true)
      ⟨coreTree, []⟩ := by decide +kernel
  obtain ⟨⟨⟩, u, ok⟩ := exists_of_succeeds succeeded
  obtain ⟨leads, exist⟩ := resolve "core:post".toList
  obtain ⟨added, log, exist⟩ := exist grounded_coreTree inside_default (Or.inr rfl) [] u ok
  exact ⟨rfl, leads postNames accepted_postNames, added, u, ok, log, exist⟩

end ComponentForge

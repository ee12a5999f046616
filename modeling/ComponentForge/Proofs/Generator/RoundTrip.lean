import ComponentForge.Proofs.Generator.TraceSteps

/-!
# Destroying what was generated

The container, the component and the story of an entity come with one another, each with its tests and
its lines in index files. Destroying follows them in the same order under a configuration that may ask
for other tests and stories, and it still ends with the files as they were.
-/

namespace ComponentForge

open Access Index Layout ComponentForge.Tree

/-- The configurations place files and index files alike. -/
structure Config.Agrees (config other : Config) : Prop where
  modulesPath : config.modulesPath = other.modulesPath
  useIndexFile : config.useIndexFile = other.useIndexFile
  snakeCaseFileNames : config.snakeCaseFileNames = other.snakeCaseFileNames

theorem Config.Agrees.symm {config other : Config} (agrees : config.Agrees other) :
    other.Agrees config :=
  ⟨agrees.modulesPath.symm, agrees.useIndexFile.symm, agrees.snakeCaseFileNames.symm⟩

theorem Spot.path_congr {config other : Config} (agrees : config.Agrees other) (names : Names)
    (spot : Spot) : spot.path config names = spot.path other names := by
  cases spot <;> simp only [Spot.path, outputPath, testPath, indexPath, storiesIndexPath, entityDir,
    modulePath, stem, containerStem, agrees.modulesPath, agrees.snakeCaseFileNames]

namespace Plot

/-- While the entity is generated: the log creates nothing but files that were made. -/
structure Rises (plot : Plot) (stage : Spot → Stage) (s : Session) : Prop where
  trace : plot.Trace stage s.tree
  created : ∀ path, ⟨.create, path⟩ ∈ s.log → ∃ spot, stage spot = .made ∧ path = plot.path spot

/-- While it is destroyed: what had been made still stands or is in the log as removed. -/
structure Falls (plot : Plot) (before stage : Spot → Stage) (s : Session) : Prop where
  trace : plot.Trace stage s.tree
  removed : ∀ spot, before spot = .made →
    stage spot = .made ∨ ⟨.remove, plot.path spot⟩ ∈ s.log

/-- A story line is in its index file only if the story was made. -/
def Storied (stage : Spot → Stage) : Prop :=
  stage .stories ≠ .same → stage .story = .made

variable {plot : Plot} {spot : Spot} {before stage : Spot → Stage} {s u : Session} {config : Config}
  {patch : IndexPatch} {kind : EntityKind} {flavor : TemplateFlavor} {useClass : Bool}

theorem Trace.not_made (trace : plot.Trace stage s.tree) (hpatch : patch ∈ plot.patches spot) :
    stage spot ≠ .made := by
  intro made
  have holds := trace.holds spot
  rw [made] at holds
  rw [patches_of_covered holds.1] at hpatch
  simp at hpatch

section Generate

/-- Some trace of the entity as far as it is generated. -/
def Generated (plot : Plot) (s : Session) : Prop :=
  ∃ stage, plot.Rises stage s ∧ Storied stage

variable (sound : plot.Sound)

include sound

theorem Rises.write (rises : plot.Rises stage s) (hspot : spot ∈ plot.covered)
    (h : (plot.names.writing plot.config spot kind flavor).run ⟨plot.root, plot.config⟩ s = .ok () u) :
    plot.Rises (Function.update stage spot .made) u := by
  obtain ⟨added, t, outcome, rfl⟩ := Job.outcome_of_ok h
  have still : ∀ {path}, (∃ other, stage other = .made ∧ path = plot.path other) →
      ∃ other, Function.update stage spot .made other = .made ∧ path = plot.path other := by
    rintro path ⟨other, made, rfl⟩
    refine ⟨other, ?_, rfl⟩
    by_cases same : other = spot
    · rw [same, Function.update_self]
    · rw [Function.update_of_ne same, made]
  rw [Names.writing] at outcome
  generalize Template.fill plot.config kind flavor plot.names = filling at outcome
  cases outcome with
  | stands there =>
    have made := (rises.trace.exists?_iff sound hspot).1 there
    refine ⟨rises.trace.update_self made, fun path hpath => still (rises.created path ?_)⟩
    simpa using hpath
  | written _ done =>
    refine ⟨rises.trace.write sound hspot done, fun path hpath => ?_⟩
    rcases List.mem_append.1 hpath with hpath | hpath
    · exact still (rises.created path hpath)
    · exact ⟨spot, Function.update_self .., (Change.mk.inj (List.mem_singleton.1 hpath)).2⟩

theorem Rises.extend (rises : plot.Rises stage s) (hpatch : patch ∈ plot.patches spot)
    (h : Project.perform ⟨plot.root, plot.config⟩ (plot.names.extending plot.config spot patch) s =
      .ok () u) : ∃ new, plot.Rises (Function.update stage spot new) u := by
  rcases Job.perform_whenSet_eq_ok_iff.1 h with ⟨used, h⟩ | ⟨-, rfl⟩
  · rw [Project.perform_singleton] at h
    obtain ⟨added, t, outcome, rfl⟩ := Job.outcome_of_ok h
    obtain ⟨new, trace⟩ := rises.trace.extend sound used hpatch outcome
    have uncreated : ∀ path, ⟨.create, path⟩ ∉ added := by
      intro path
      cases outcome <;> simp
    refine ⟨new, trace, fun path hpath => ?_⟩
    have before := (List.mem_append.1 hpath).resolve_right (uncreated path)
    obtain ⟨other, made, rfl⟩ := rises.created path before
    refine ⟨other, ?_, rfl⟩
    rwa [Function.update_of_ne]
    rintro rfl
    exact rises.trace.not_made hpatch made
  · refine ⟨stage spot, ?_⟩
    rwa [Function.update_eq_self]

theorem Generated.write (generated : plot.Generated s) (hspot : spot ∈ plot.covered)
    (h : (plot.names.writing plot.config spot kind flavor).run ⟨plot.root, plot.config⟩ s = .ok () u) :
    plot.Generated u := by
  obtain ⟨stage, rises, storied⟩ := generated
  refine ⟨_, rises.write sound hspot h, fun edited => ?_⟩
  have index : spot ≠ .stories := by
    rintro rfl
    exact stories_notMem_covered hspot
  rw [Function.update_of_ne index.symm] at edited
  by_cases story : spot = .story
  · rw [story, Function.update_self]
  · rw [Function.update_of_ne (Ne.symm story), storied edited]

theorem Generated.extend (generated : plot.Generated s) (hpatch : patch ∈ plot.patches .index)
    (h : Project.perform ⟨plot.root, plot.config⟩ (plot.names.extending plot.config .index patch) s =
      .ok () u) : plot.Generated u := by
  obtain ⟨stage, rises, storied⟩ := generated
  obtain ⟨new, after⟩ := rises.extend sound hpatch h
  refine ⟨_, after, fun edited => ?_⟩
  rw [Function.update_of_ne (by decide)] at edited ⊢
  exact storied edited

theorem Generated.story (generated : plot.Generated s) (hspot : .story ∈ plot.covered)
    (h : Project.perform ⟨plot.root, plot.config⟩ (plot.names.storyJobs plot.config) s = .ok () u) :
    plot.Generated u := by
  obtain ⟨v, wrote, patched⟩ := Project.perform_cons_eq_ok_iff.1 h
  obtain ⟨stage, rises, -⟩ := generated
  have hpatch : plot.names.storyPatch ∈ plot.patches .stories := List.mem_singleton.2 rfl
  obtain ⟨new, after⟩ := (rises.write sound hspot wrote).extend sound hpatch patched
  refine ⟨_, after, fun _ => ?_⟩
  rw [Function.update_of_ne (by decide), Function.update_self]

/-- A file of the entity with its line in the index file and its tests, before other jobs. -/
theorem Generated.file {file test : Spot} {tested : Bool} {rest : List Job}
    (generated : plot.Generated s) (hfile : file ∈ plot.covered) (htest : test ∈ plot.covered)
    (hpatch : patch ∈ plot.patches .index)
    (h : Project.perform ⟨plot.root, plot.config⟩
      (plot.names.writing plot.config file kind flavor ::
        (plot.names.extending plot.config .index patch ++
          Job.whenSet tested [plot.names.writing plot.config test kind .test] ++ rest)) s = .ok () u) :
    ∃ v, plot.Generated v ∧ Project.perform ⟨plot.root, plot.config⟩ rest v = .ok () u := by
  obtain ⟨v, wrote, h⟩ := Project.perform_cons_eq_ok_iff.1 h
  obtain ⟨w, h, later⟩ := Project.perform_append_eq_ok_iff.1 h
  obtain ⟨x, patched, h⟩ := Project.perform_append_eq_ok_iff.1 h
  have entity := (generated.write sound hfile wrote).extend sound hpatch patched
  refine ⟨w, ?_, later⟩
  rcases Job.perform_whenSet_eq_ok_iff.1 h with ⟨-, h⟩ | ⟨-, rfl⟩
  · rw [Project.perform_singleton] at h
    exact entity.write sound htest h
  · exact entity

theorem Generated.component (generated : plot.Generated s)
    (hspots : ∀ spot ∈ [Spot.component, .componentTest, .story], spot ∈ plot.covered)
    (hpatch : plot.names.componentPatch ∈ plot.patches .index)
    (h : Project.perform ⟨plot.root, plot.config⟩ (plot.names.componentJobs plot.config useClass) s =
      .ok () u) : plot.Generated u := by
  obtain ⟨v, entity, h⟩ := generated.file sound (hspots .component (by simp))
    (hspots .componentTest (by simp)) hpatch h
  rcases Job.perform_whenSet_eq_ok_iff.1 h with ⟨-, h⟩ | ⟨-, rfl⟩
  · exact entity.story sound (hspots .story (by simp)) h
  · exact entity

theorem Generated.generation (generated : plot.Generated s) (hkind : plot.kind ≠ .module)
    (h : Project.perform ⟨plot.root, plot.config⟩
      (plot.names.generation plot.config useClass plot.kind) s = .ok () u) : plot.Generated u := by
  cases kind : plot.kind with
  | module => exact absurd kind hkind
  | component =>
    rw [kind] at h
    obtain ⟨hspots, hpatch⟩ := component_covered (Or.inl kind)
    exact generated.component sound hspots hpatch h
  | container =>
    rw [kind] at h
    obtain ⟨hspots, hpatch⟩ := container_covered kind
    obtain ⟨component_spots, component_patch⟩ := component_covered (Or.inr kind)
    obtain ⟨v, entity, h⟩ := generated.file sound (hspots .container (by simp))
      (hspots .containerTest (by simp)) hpatch h
    exact entity.component sound component_spots component_patch h
  | storybook =>
    rw [kind] at h
    exact generated.story sound (story_covered hkind) h

end Generate

section Destroy

theorem Falls.congr {after : Spot → Stage} (falls : plot.Falls before stage s)
    (same : ∀ spot, stage spot = after spot) : plot.Falls before after s :=
  funext same ▸ falls

/-- The stages after the story was destroyed. -/
def withoutStorybook (plot : Plot) (stage : Spot → Stage) : Spot → Stage
  | .story => .same
  | .stories => (stage .stories).without plot.names.storyPatch
  | spot => stage spot

/-- The stages after the component was destroyed. -/
def withoutComponent (plot : Plot) (stage : Spot → Stage) : Spot → Stage
  | .component => .same
  | .componentTest => .same
  | .index => (stage .index).without plot.names.componentPatch
  | spot => plot.withoutStorybook stage spot

/-- The stages after the container was destroyed. -/
def withoutContainer (plot : Plot) (stage : Spot → Stage) : Spot → Stage
  | .container => .same
  | .containerTest => .same
  | .index => (stage .index).without plot.names.containerPatch
  | spot => stage spot

/-- Without a story there is no story line either. -/
theorem Trace.withoutStorybook_eq {t : Tree} (trace : plot.Trace stage t) (storied : Storied stage)
    (hspot : .story ∈ plot.covered) (unmade : stage .story ≠ .made) :
    plot.withoutStorybook stage = stage := by
  have story_same : stage .story = .same := (trace.covered_cases hspot).resolve_right unmade
  have stories_same : stage .stories = .same := Classical.byContradiction fun edited =>
    unmade (storied edited)
  funext spot
  cases spot with
  | story => exact story_same.symm
  | stories =>
    show (stage .stories).without _ = stage .stories
    rw [stories_same]
    rfl
  | _ => rfl

variable (sound : plot.Sound) (agrees : config.Agrees plot.config)

include sound agrees

theorem Falls.remove (falls : plot.Falls before stage s) (hspot : spot ∈ plot.covered)
    (h : (plot.names.removing config spot).run ⟨plot.root, config⟩ s = .ok () u) :
    plot.Falls before (Function.update stage spot .same) u := by
  obtain ⟨added, t, outcome, rfl⟩ := Job.outcome_of_ok h
  rw [Names.removing, Spot.path_congr agrees] at outcome
  obtain ⟨removed, done, recorded⟩ : ∃ removed,
      Access.remove (plot.root.join (plot.path spot)) s.tree = .ok removed t ∧
        (removed = true → ⟨.remove, plot.path spot⟩ ∈ added) := by
    cases outcome with
    | absent done => exact ⟨false, done, nofun⟩
    | removed done => exact ⟨true, done, fun _ => List.mem_singleton.2 rfl⟩
  obtain ⟨gone, trace⟩ := falls.trace.remove sound hspot done
  refine ⟨trace, fun other made => ?_⟩
  rw [List.mem_append]
  rcases falls.removed other made with standing | logged
  · by_cases same : other = spot
    · subst same
      exact Or.inr (Or.inr (recorded (gone standing)))
    · left
      rw [Function.update_of_ne same, standing]
  · exact Or.inr (Or.inl logged)

theorem Falls.withdraw (falls : plot.Falls before stage s) (hpatch : patch ∈ plot.patches spot)
    (h : Project.perform ⟨plot.root, config⟩ (plot.names.withdrawing config spot patch) s = .ok () u) :
    plot.Falls before (Function.update stage spot ((stage spot).without patch)) u := by
  rcases Job.perform_whenSet_eq_ok_iff.1 h with ⟨used, h⟩ | ⟨unused, rfl⟩
  · rw [Project.perform_singleton] at h
    obtain ⟨added, t, outcome, rfl⟩ := Job.outcome_of_ok h
    rw [Spot.path_congr agrees] at outcome
    refine ⟨falls.trace.withdraw sound hpatch outcome, fun other made => ?_⟩
    rw [List.mem_append]
    rcases falls.removed other made with standing | logged
    · left
      rwa [Function.update_of_ne]
      rintro rfl
      exact falls.trace.not_made hpatch standing
    · exact Or.inr (Or.inl logged)
  · have same : (stage spot).without patch = stage spot := by
      have holds := falls.trace.holds spot
      cases hstage : stage spot with
      | same => rfl
      | made => rfl
      | edited done =>
        rw [hstage] at holds
        exact absurd (agrees.useIndexFile ▸ holds.1.1) (Bool.eq_false_iff.1 unused)
    rwa [same, Function.update_eq_self]

/-- The file of a component or a container with its tests and its line in the index file. -/
theorem Falls.file {file test : Spot} (falls : plot.Falls before stage s) (hfile : file ∈ plot.covered)
    (htest : test ∈ plot.covered) (hpatch : patch ∈ plot.patches .index)
    (h : Project.perform ⟨plot.root, config⟩ (plot.names.removing config file ::
      plot.names.removing config test :: plot.names.withdrawing config .index patch) s = .ok () u) :
    plot.Falls before (Function.update (Function.update (Function.update stage file .same) test .same)
      .index ((stage .index).without patch)) u := by
  obtain ⟨v, removed, h⟩ := Project.perform_cons_eq_ok_iff.1 h
  obtain ⟨w, untested, reverted⟩ := Project.perform_cons_eq_ok_iff.1 h
  have rest := ((falls.remove sound agrees hfile removed).remove sound agrees htest
    untested).withdraw sound agrees hpatch reverted
  rwa [Function.update_of_ne (fun same => index_notMem_covered (same ▸ htest)),
    Function.update_of_ne (fun same => index_notMem_covered (same ▸ hfile))] at rest

/-- The story goes, unless it was skipped because it is not there. -/
theorem Falls.story {flag : Bool} (falls : plot.Falls before stage s) (storied : Storied stage)
    (hspot : .story ∈ plot.covered)
    (skipped : flag = false →
      Project.exists? ⟨plot.root, config⟩ s.tree (Spot.story.path config plot.names) = false)
    (h : Project.perform ⟨plot.root, config⟩ (Job.whenSet flag (plot.names.storyRemovals config)) s =
      .ok () u) : plot.Falls before (plot.withoutStorybook stage) u := by
  rcases Job.perform_whenSet_eq_ok_iff.1 h with ⟨-, h⟩ | ⟨unset, rfl⟩
  · obtain ⟨v, removed, reverted⟩ := Project.perform_cons_eq_ok_iff.1 h
    have hpatch : plot.names.storyPatch ∈ plot.patches .stories := List.mem_singleton.2 rfl
    refine ((falls.remove sound agrees hspot removed).withdraw sound agrees hpatch reverted).congr ?_
    intro spot
    cases spot <;> rfl
  · have missing := skipped unset
    rw [Spot.path_congr agrees] at missing
    have unmade : stage .story ≠ .made := fun made =>
      absurd ((falls.trace.exists?_iff sound hspot).2 made) (Bool.eq_false_iff.1 missing)
    rwa [falls.trace.withoutStorybook_eq storied hspot unmade]

end Destroy

end Plot

end ComponentForge

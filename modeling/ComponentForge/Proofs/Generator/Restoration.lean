import ComponentForge.Proofs.Generator.Calls
import ComponentForge.Proofs.Generator.RoundTrip

/-!
# Projects that are restored

If none of the files of an entity stood before it was generated, destroying it leaves every file of
the project as it was, and the log of its destruction accounts for every file that was made. Only
directories may be left over.
-/

namespace ComponentForge

open Access Index Layout ComponentForge.Tree

/-- The file is as it was at the start. -/
def Stage.Idle : Stage → Prop
  | .same => True
  | .made => False
  | .edited done => done = []

theorem foldl_erase_eq_nil {patches done : List IndexPatch} (nodup : done.Nodup)
    (sub : done ⊆ patches) : patches.foldl List.erase done = [] := by
  induction patches generalizing done with
  | nil => exact List.subset_nil.1 sub
  | cons patch rest ih =>
    refine ih (nodup.erase patch) fun other hother => ?_
    obtain ⟨differ, hother⟩ := nodup.mem_erase_iff.1 hother
    exact (List.mem_cons.1 (sub hother)).resolve_left differ

theorem Stage.foldl_without (patches : List IndexPatch) (stage : Stage) :
    patches.foldl (fun stage patch => stage.without patch) stage = match stage with
      | .edited done => .edited (patches.foldl List.erase done)
      | other => other := by
  induction patches generalizing stage with
  | nil => cases stage <;> rfl
  | cons patch rest ih =>
    rw [List.foldl_cons, ih]
    cases stage <;> rfl

namespace Plot

variable {plot : Plot} {spot : Spot} {stage : Spot → Stage} {t : Tree}

namespace Trace

/-- Taking all its patches back leaves an index file as it was. -/
theorem idle_foldl (trace : plot.Trace stage t) (hspot : spot ∉ plot.covered) :
    ((plot.patches spot).foldl (fun stage patch => stage.without patch) (stage spot)).Idle := by
  have holds := trace.holds spot
  rw [Stage.foldl_without]
  cases h : stage spot with
  | same => trivial
  | made =>
    rw [h] at holds
    exact absurd holds.1 hspot
  | edited done =>
    rw [h] at holds
    obtain ⟨-, -, ⟨nodup, sub⟩, -⟩ := holds
    exact foldl_erase_eq_nil nodup sub

theorem get?_of_idle (trace : plot.Trace stage t) (idle : (stage spot).Idle) :
    t.get? (plot.route spot) = plot.start.get? (plot.route spot) := by
  have holds := trace.holds spot
  cases h : stage spot with
  | same =>
    rw [h] at holds
    exact holds
  | made =>
    rw [h] at idle
    exact idle.elim
  | edited done =>
    rw [h] at holds idle
    obtain rfl : done = [] := idle
    obtain ⟨-, -, -, text, -, started, node⟩ := holds
    rw [started, node]

theorem restored (trace : plot.Trace stage t) (idle : ∀ spot, (stage spot).Idle) (r : Route) :
    t.get? r = plot.start.get? r ∨ plot.start.get? r = none ∧ t.get? r = some .dir := by
  by_cases file : ∃ spot, r = plot.route spot
  · obtain ⟨spot, rfl⟩ := file
    exact Or.inl (trace.get?_of_idle (idle spot))
  · exact trace.rest r fun spot same => file ⟨spot, same⟩

end Trace

/-- The stages after the entity was destroyed. -/
def withoutEntity (plot : Plot) (stage : Spot → Stage) : Spot → Stage :=
  match plot.kind with
  | .component => plot.withoutComponent stage
  | .container => plot.withoutComponent (plot.withoutContainer stage)
  | .storybook => plot.withoutStorybook stage
  | .module => stage

theorem idle_withoutEntity (trace : plot.Trace stage t) (hkind : plot.kind ≠ .module) :
    ∀ spot, (plot.withoutEntity stage spot).Idle := by
  have others : ∀ spot, plot.patches spot = [] → spot ∉ plot.covered → (stage spot).Idle := by
    intro spot hpatches hspot
    have idle := trace.idle_foldl hspot
    rwa [hpatches] at idle
  have index := trace.idle_foldl index_notMem_covered
  have stories : ((stage .stories).without plot.names.storyPatch).Idle :=
    trace.idle_foldl stories_notMem_covered
  intro spot
  cases kind : plot.kind with
  | module => exact absurd kind hkind
  | component =>
    simp only [patches, kind] at index
    rw [withoutEntity, kind]
    cases spot with
    | component => trivial
    | componentTest => trivial
    | container => exact others .container rfl (by simp [covered, kind])
    | containerTest => exact others .containerTest rfl (by simp [covered, kind])
    | story => trivial
    | index => exact index
    | stories => exact stories
  | container =>
    simp only [patches, kind] at index
    rw [withoutEntity, kind]
    cases spot with
    | index => exact index
    | stories => exact stories
    | _ => trivial
  | storybook =>
    rw [withoutEntity, kind]
    cases spot with
    | story => trivial
    | stories => exact stories
    | index =>
      exact others .index (by simp [patches, kind, Names.modulePatches]) index_notMem_covered
    | component => exact others .component rfl (by simp [covered, kind])
    | componentTest => exact others .componentTest rfl (by simp [covered, kind])
    | container => exact others .container rfl (by simp [covered, kind])
    | containerTest => exact others .containerTest rfl (by simp [covered, kind])

end Plot

section Names

variable {config other : Config} {raw : Text} {names : Names} {kind : EntityKind}

/-- Names depend on nothing but the casing of file names. -/
theorem Names.Accepted.congr (agrees : other.Agrees config) (h : names.Accepted other raw) :
    names.Accepted config raw := by
  have policy : other.policy = config.policy := by
    rw [Config.policy, Config.policy, agrees.snakeCaseFileNames]
  obtain ⟨name, module, dir, parsed, module_some, checked, words, rfl⟩ := h
  refine ⟨name, module, dir, parsed, module_some, policy ▸ checked, policy ▸ words, ?_⟩
  rw [Names.derive, Names.derive, policy, containerStem, containerStem, agrees.snakeCaseFileNames]

/-- The patches of an entity have different lines and identifiers. -/
theorem Names.Accepted.apart (h : names.Accepted config raw) : Apart (names.modulePatches kind) where
  line_inj patch hpatch other hother same := by
    rcases eq_of_mem_modulePatches hpatch with rfl | rfl <;>
      rcases eq_of_mem_modulePatches hother with rfl | rfl
    · rfl
    · exact absurd same.symm h.importLine_ne
    · exact absurd same h.importLine_ne
    · rfl
  identifier_inj patch hpatch other hother entry hentry entry' hentry' same := by
    rcases eq_of_mem_modulePatches hpatch with rfl | rfl <;>
      rcases eq_of_mem_modulePatches hother with rfl | rfl <;>
      obtain rfl := Option.some.inj hentry <;> obtain rfl := Option.some.inj hentry'
    · rfl
    · exact absurd same.symm h.containerName_ne
    · exact absurd same h.containerName_ne
    · rfl

end Names

namespace Project

/-- The files that an entity of the kind comes with. -/
def coveredPaths (project : Project) (names : Names) : EntityKind → List Path
  | .module => []
  | .component =>
    [project.entityPath .component names, project.testPath .component names,
      project.entityPath .storybook names]
  | .container =>
    [project.entityPath .container names, project.testPath .container names,
      project.entityPath .component names, project.testPath .component names,
      project.entityPath .storybook names]
  | .storybook => [project.entityPath .storybook names]

end Project

namespace Plot

variable {plot : Plot}

theorem path_mem_coveredPaths {spot : Spot} (h : spot ∈ plot.covered) :
    plot.path spot ∈ Project.coveredPaths ⟨plot.root, plot.config⟩ plot.names plot.kind := by
  have paths : Project.coveredPaths ⟨plot.root, plot.config⟩ plot.names plot.kind =
      plot.covered.map plot.path := by
    rw [covered]
    cases plot.kind <;> rfl
  exact paths ▸ List.mem_map_of_mem h

/-- The files are free and the index files are clear. -/
theorem sound_of_clear {raw : Text} (site : plot.start.Site plot.root plot.base)
    (inside : Inside plot.config.modulesPath) (accepted : plot.names.Accepted plot.config raw)
    (isName : IsName plot.names.moduleDir)
    (free : ∀ path ∈ Project.coveredPaths ⟨plot.root, plot.config⟩ plot.names plot.kind,
      Project.exists? ⟨plot.root, plot.config⟩ plot.start path = false)
    (clear : ∀ spot content, plot.Opens spot content → plot.patches spot ≠ [] →
      Clear (plot.patches spot) content) : plot.Sound where
  site := site
  inside := inside
  isName := isName
  worded := accepted.worded
  free spot hspot := free _ (path_mem_coveredPaths hspot)
  lacks spot content opens patch hpatch := by
    have clear := clear spot content opens (List.ne_nil_of_mem hpatch)
    refine clear.lacks (fun other hother => ?_) patch hpatch
    cases spot with
    | index =>
      obtain ⟨line, x, himport, -, rfl⟩ := accepted.worded.modulePatch hother
      exact himport.isImportLine.oneLine_literal
    | stories =>
      obtain ⟨line, hline, same⟩ := accepted.worded.storyPatch
      rw [List.mem_singleton.1 hother, same]
      exact hline.isImportLine.oneLine_literal
    | _ => simp [patches] at hother
  reversible spot content opens patch hpatch edited applied := by
    have clear := clear spot content opens (List.ne_nil_of_mem hpatch)
    cases spot with
    | index =>
      exact clear.reversible (fun other hother => accepted.worded.modulePatch hother) accepted.apart
        hpatch applied
    | stories =>
      refine clear.reversible_stories fun other hother => ?_
      obtain ⟨line, hline, same⟩ := accepted.worded.storyPatch
      exact ⟨line, hline, (List.mem_singleton.1 hother).trans same⟩
    | _ => simp [patches] at hpatch

variable {config : Config} {raw : Text} {useClass : Bool} {s u : Session} {stage : Spot → Stage}

/-- All that a generation leaves behind belongs to the entity. -/
theorem generated_of_run (sound : plot.Sound) (hkind : plot.kind ≠ .module)
    (accepted : plot.names.Accepted plot.config raw)
    (run : Project.generate ⟨plot.root, plot.config⟩ plot.kind raw useClass ⟨plot.start, []⟩ =
      .ok () s) : plot.Generated s := by
  have begun : plot.Generated ⟨plot.start, []⟩ :=
    ⟨_, ⟨sound.trace, by simp⟩, fun edited => absurd rfl edited⟩
  exact begun.generation sound hkind (Project.perform_of_generate hkind accepted run)

/-- A destruction takes back all that is there of the entity. -/
theorem falls_of_run (sound : plot.Sound) (agrees : config.Agrees plot.config)
    (hkind : plot.kind ≠ .module) (accepted : plot.names.Accepted plot.config raw)
    (trace : plot.Trace stage s.tree) (storied : Storied stage)
    (run : Project.destroy ⟨plot.root, config⟩ plot.kind raw ⟨s.tree, []⟩ = .ok () u) :
    plot.Falls stage (plot.withoutEntity stage) u := by
  have destroyed := Project.perform_of_destroy hkind (accepted.congr agrees.symm) run
  obtain ⟨v, removals, story⟩ := Project.perform_append_eq_ok_iff.1 destroyed
  have skipped := Project.missing_of_not_storied removals
  have standing : plot.Falls stage stage ⟨s.tree, []⟩ := ⟨trace, fun _ made => Or.inl made⟩
  have hstory := story_covered hkind
  rw [withoutEntity]
  cases h : plot.kind with
  | module => exact absurd h hkind
  | component =>
    rw [h] at removals
    obtain ⟨hspots, hpatch⟩ := component_covered (Or.inl h)
    have rest := standing.file sound agrees (hspots .component (by simp))
      (hspots .componentTest (by simp)) hpatch removals
    refine (rest.story sound agrees storied hstory skipped story).congr fun spot => ?_
    cases spot <;> rfl
  | container =>
    rw [h] at removals
    obtain ⟨w, first, second⟩ := Project.perform_append_eq_ok_iff.1 removals
    obtain ⟨hspots, hpatch⟩ := container_covered h
    obtain ⟨component_spots, component_patch⟩ := component_covered (Or.inr h)
    have rest := (standing.file sound agrees (hspots .container (by simp))
      (hspots .containerTest (by simp)) hpatch first).file sound agrees
        (component_spots .component (by simp)) (component_spots .componentTest (by simp))
        component_patch second
    refine (rest.story sound agrees storied hstory skipped story).congr fun spot => ?_
    cases spot <;> rfl
  | storybook =>
    rw [h] at removals
    obtain rfl := (EStateM.Result.ok.inj removals).2
    exact standing.story sound agrees storied hstory skipped story

/-- One entity generated and destroyed. -/
theorem restored_of_runs (sound : plot.Sound) (agrees : config.Agrees plot.config)
    (hkind : plot.kind ≠ .module) (accepted : plot.names.Accepted plot.config raw)
    (generated : Project.generate ⟨plot.root, plot.config⟩ plot.kind raw useClass ⟨plot.start, []⟩ =
      .ok () s)
    (destroyed : Project.destroy ⟨plot.root, config⟩ plot.kind raw ⟨s.tree, []⟩ = .ok () u) :
    (∀ r, u.tree.get? r = plot.start.get? r ∨ plot.start.get? r = none ∧ u.tree.get? r = some .dir) ∧
      ∀ path, ⟨.create, path⟩ ∈ s.log → ⟨.remove, path⟩ ∈ u.log := by
  obtain ⟨stage, rises, storied⟩ := generated_of_run sound hkind accepted generated
  have fallen := falls_of_run sound agrees hkind accepted rises.trace storied destroyed
  have idle := idle_withoutEntity rises.trace hkind
  refine ⟨fallen.trace.restored idle, fun path hpath => ?_⟩
  obtain ⟨spot, made, rfl⟩ := rises.created path hpath
  refine (fallen.removed spot made).resolve_left fun still => ?_
  have contradiction := idle spot
  rw [still] at contradiction
  exact contradiction

end Plot

/-- Whatever tests and stories the configurations ask for, destroying what was generated where none of
it stood restores every file of the project. -/
theorem Project.destroy_restores {tree : Tree} {root : Path} {config other : Config}
    {kind : EntityKind} {raw : Text} {useClass : Bool} {names : Names} {s u : Session}
    (plain : tree.Plain) (inside : Inside config.modulesPath) (agrees : other.Agrees config)
    (hkind : kind ≠ .module) (accepted : names.Accepted config raw)
    (free : ∀ path ∈ coveredPaths ⟨root, config⟩ names kind,
      exists? ⟨root, config⟩ tree path = false)
    (index : ∀ content, read (root.join (indexPath config names.moduleDir)) tree = .ok content tree →
      Clear (names.modulePatches kind) content)
    (stories : ∀ content,
      read (root.join (storiesIndexPath config names.moduleDir)) tree = .ok content tree →
        Clear [names.storyPatch] content)
    (generated : generate ⟨root, config⟩ kind raw useClass ⟨tree, []⟩ = .ok () s)
    (destroyed : destroy ⟨root, other⟩ kind raw ⟨s.tree, []⟩ = .ok () u) :
    (∀ r, u.tree.get? r = tree.get? r ∨ tree.get? r = none ∧ u.tree.get? r = some .dir) ∧
      ∀ path, ⟨.create, path⟩ ∈ s.log → ⟨.remove, path⟩ ∈ u.log := by
  have resolved : exists? ⟨root, config⟩ tree (modulePath config names.moduleDir) ∧
      IsName names.moduleDir := by
    cases kind with
    | module => exact absurd rfl hkind
    | _ =>
      obtain ⟨-, isName, there⟩ := resolveEntity_bind_ok accepted generated
      exact ⟨there, isName⟩
  obtain ⟨there, isName⟩ := resolved
  obtain ⟨base, site⟩ := plain.exists_site (descends_modulePath inside isName) there
  let plot : Plot := ⟨tree, root, base, config, names, kind⟩
  have sound : plot.Sound := by
    refine Plot.sound_of_clear site inside accepted isName free fun spot content opens hne => ?_
    cases spot with
    | index => exact index content opens.read
    | stories => exact stories content opens.read
    | _ => exact absurd rfl hne
  exact Plot.restored_of_runs sound agrees hkind accepted generated destroyed

/-- A module with an index file of its own. -/
def coreIndex : Text :=
  "import Menu from './menu';\n\nexport \x7b\n  Menu // by hand\n\x7d;\n".toList

def coreTree : Tree :=
  (((Tree.empty.set ["src".toList] .dir).set ["src".toList, "modules".toList] .dir).set
    ["src".toList, "modules".toList, "core".toList] .dir).set
      ["src".toList, "modules".toList, "core".toList, "index.js".toList] (.file (.text coreIndex))

theorem plain_coreTree : coreTree.Plain := by
  have source := plain_empty.set_dir (d := []) (n := "src".toList) (by decide)
  have modules := source.set_dir (d := ["src".toList]) (n := "modules".toList) (by decide)
  have core := modules.set_dir (d := ["src".toList, "modules".toList]) (n := "core".toList) (by decide)
  exact core.set_file (d := ["src".toList, "modules".toList, "core".toList]) (by decide) (by decide)

def testedConfig : Config :=
  { Config.default with useIndexFile := true, storybook := true, generateComponentTests := true,
                        generateContainerTests := true }

def untestedConfig : Config :=
  { Config.default with useIndexFile := true }

theorem Project.destroy_restores_coreTree : ∃ s u,
    generate ⟨.ofString ".", testedConfig⟩ .container "core:post".toList true ⟨coreTree, []⟩ =
      .ok () s ∧
    destroy ⟨.ofString ".", untestedConfig⟩ .container "core:post".toList ⟨s.tree, []⟩ = .ok () u ∧
    (∀ r, u.tree.get? r = coreTree.get? r ∨ coreTree.get? r = none ∧ u.tree.get? r = some .dir) ∧
    ∀ path, ⟨.create, path⟩ ∈ s.log → ⟨.remove, path⟩ ∈ u.log := by
  have accepted : postNames.Accepted testedConfig "core:post".toList :=
    ⟨⟨"core:post".toList, some "core".toList, "post".toList⟩, "core".toList, "core".toList,
      by decide +kernel, rfl, by decide +kernel, by decide +kernel, by decide +kernel⟩
  have both : succeeds (do
      generate ⟨.ofString ".", testedConfig⟩ .container "core:post".toList true
      modify fun s => ⟨s.tree, []⟩
      destroy ⟨.ofString ".", untestedConfig⟩ .container "core:post".toList) ⟨coreTree, []⟩ := by
    decide +kernel
  obtain ⟨⟨⟩, u, both⟩ := exists_of_succeeds both
  obtain ⟨⟨⟩, s, generated, both⟩ := bind_eq_ok_iff.1 both
  obtain ⟨⟨⟩, v, cleared, destroyed⟩ := bind_eq_ok_iff.1 both
  rw [modify_run] at cleared
  obtain rfl := (EStateM.Result.ok.inj cleared).2
  have index : ∀ content,
      read ((Path.ofString ".").join (indexPath testedConfig postNames.moduleDir)) coreTree =
        .ok content coreTree → Clear (postNames.modulePatches .container) content := by
    intro content hread
    have coreRead :
        read ((Path.ofString ".").join (indexPath testedConfig postNames.moduleDir)) coreTree =
          .ok coreIndex coreTree := by rfl
    obtain rfl := (EStateM.Result.ok.inj (coreRead.symm.trans hread)).1
    have located : ExportZone.locate? coreIndex exportMarker = some ⟨3, 5⟩ := by decide +kernel
    refine ⟨by decide +kernel, by decide +kernel, by decide +kernel, fun zone hzone => ?_⟩
    obtain rfl := Option.some.inj (located.symm.trans hzone)
    exact ⟨by decide +kernel, by decide +kernel, by decide +kernel⟩
  have stories : ∀ content,
      read ((Path.ofString ".").join (storiesIndexPath testedConfig postNames.moduleDir)) coreTree =
        .ok content coreTree → Clear [postNames.storyPatch] content := by
    intro content hread
    obtain ⟨-, r, reads⟩ := readsAt_of_read hread
    have missing : Access.exists? coreTree
        ((Path.ofString ".").join (storiesIndexPath testedConfig postNames.moduleDir)) = false := by
      decide +kernel
    exact absurd reads.exists? (by rw [missing]; decide)
  have inside : Inside testedConfig.modulesPath := ⟨by decide, by decide⟩
  have agrees : untestedConfig.Agrees testedConfig := ⟨rfl, rfl, rfl⟩
  have free : ∀ path ∈ coveredPaths ⟨.ofString ".", testedConfig⟩ postNames .container,
      exists? ⟨.ofString ".", testedConfig⟩ coreTree path = false := by
    decide +kernel
  have restored := destroy_restores plain_coreTree inside agrees (by decide) accepted free index
    stories generated destroyed
  exact ⟨s, u, generated, destroyed, restored⟩

end ComponentForge

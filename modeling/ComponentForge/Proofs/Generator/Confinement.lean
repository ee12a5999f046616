import ComponentForge.Proofs.Generator.ChangeLog

/-!
# Confinement

The footprint of a call is the directory of its module, or the files of its entity. All of it lies in
one module, one name below the modules root, and a call changes nothing outside, but for directories
that are made on the way to it.
-/

namespace ComponentForge

open Layout ComponentForge.Tree

/-- The directory that the modules of a project lie in. -/
def Config.modulesRoot (config : Config) : Path :=
  (Path.ofString ".").join ⟨config.modulesPath⟩

/-- The path of an entry of a module, by the names that lead to it. -/
def Config.below (config : Config) (module : Text) (tail : List Text) : Path :=
  config.modulesRoot.join ⟨Text.join ['/'] (module :: tail)⟩

/-- Pieces are joined in two goes. -/
theorem Text.join_append {n m : Text} {names more : List Text} :
    Text.join ['/'] (n :: names) ++ '/' :: Text.join ['/'] (m :: more) =
      Text.join ['/'] (n :: names ++ m :: more) := by
  induction names generalizing n with
  | nil => simp [Text.join]
  | cons second rest ih =>
    have tail := ih (n := second)
    simp only [List.cons_append] at tail
    simp [Text.join, ← tail]

namespace Path

/-- Names with slashes between them go down along the names. -/
theorem Descends.of_names {n : Text} {names : List Text} (h : ∀ m ∈ n :: names, IsName m) :
    Descends ⟨Text.join ['/'] (n :: names)⟩ (n :: names) := by
  induction names generalizing n with
  | nil => exact .of_name (h n List.mem_cons_self)
  | cons second rest ih =>
    have first : Descends ⟨n⟩ [n] := .of_name (h n List.mem_cons_self)
    have below := ih fun m mem => h m (List.mem_cons_of_mem n mem)
    have joined := first.join below
    rw [first.join_eq below] at joined
    simpa [Text.join] using joined

end Path

namespace Config

variable {config : Config} {m n : Text} {tail more : List Text}

theorem below_join (hm : ∀ name ∈ m :: tail, IsName name) (hn : ∀ name ∈ n :: more, IsName name) :
    (config.below m tail).join ⟨Text.join ['/'] (n :: more)⟩ =
      config.below m (tail ++ n :: more) := by
  have outer := Path.Descends.of_names hm
  have inner := Path.Descends.of_names hn
  rw [below, Path.join_join _ outer.text_ne_nil inner.relative, outer.join_eq inner, Text.join_append]
  rfl

theorem below_directory (hm : IsName m) (kind : EntityKind) (hkind : kind ≠ .module) :
    (modulePath config m).join ⟨kind.directory⟩ = config.below m (directoryNames kind) := by
  have here : ∀ name ∈ [m], IsName name := by simpa using hm
  cases kind with
  | module => exact absurd rfl hkind
  | component => exact below_join here (show ∀ n ∈ ["components".toList], IsName n by decide)
  | container => exact below_join here (show ∀ n ∈ ["containers".toList], IsName n by decide)
  | storybook =>
    exact below_join here (show ∀ n ∈ ["components".toList, "stories".toList], IsName n by decide)

end Config

namespace Spot

variable {config : Config} {names : Names}

theorem isName_file (worded : names.Worded) (spot : Spot) : IsName (spot.file config names) := by
  have stem : ∀ kind, IsName (fileName (Layout.stem config kind names.componentFile)) := fun kind =>
    isName_fileName_stem config kind worded.componentFile
  have test : IsName (fileName names.componentFile) := worded.componentFile.isName_append (by decide)
  have index : IsName "index.js".toList := ⟨by decide, by decide⟩
  cases spot with
  | componentTest => exact test
  | containerTest => exact test
  | index => exact index
  | stories => exact index
  | _ => exact stem _

theorem isName_of_mem_directories (spot : Spot) : ∀ n ∈ spot.directories, IsName n := by
  cases spot <;> decide

/-- The text of the path of a file names the module, the directories and the file. -/
theorem path_eq_below (hm : IsName names.moduleDir) (worded : names.Worded) (spot : Spot) :
    spot.path config names = config.below names.moduleDir (spot.tail config names) := by
  have file : ∀ {directory : Path}, directory = config.below names.moduleDir spot.directories →
      directory.join ⟨spot.file config names⟩ =
        config.below names.moduleDir (spot.tail config names) := by
    rintro _ rfl
    exact config.below_join (List.forall_mem_cons.2 ⟨hm, isName_of_mem_directories spot⟩)
      (List.forall_mem_singleton.2 (isName_file worded spot))
  have directory := config.below_directory hm
  have tests : ∀ kind, kind ≠ .module → ((modulePath config names.moduleDir).join
      ⟨kind.directory⟩).join (.ofString "tests") =
        config.below names.moduleDir (directoryNames kind ++ ["tests".toList]) := by
    intro kind hkind
    rw [directory kind hkind]
    refine config.below_join ?_ (show ∀ n ∈ ["tests".toList], IsName n by decide)
    refine List.forall_mem_cons.2 ⟨hm, ?_⟩
    cases kind <;> decide
  cases spot with
  | component => exact file (directory .component (by decide))
  | container => exact file (directory .container (by decide))
  | componentTest => exact file (tests .component (by decide))
  | containerTest => exact file (tests .container (by decide))
  | story => exact file (directory .storybook (by decide))
  | stories => exact file (directory .storybook (by decide))
  | index => exact file rfl

end Spot

/-- Below the modules root the path has one name, that of a module, and below that the directories of a
kind of file and the name of a file. For a module itself the path ends with its name. -/
def Config.InModule (config : Config) (kind : EntityKind) (path : Path) : Prop :=
  ∃ m tail, IsName m ∧ path = config.below m tail ∧
    path.names = modulesRoute config.modulesPath ++ m :: tail ∧
    if kind = .module then tail = []
    else ∃ (spot : Spot) (file : Text), IsName file ∧ tail = spot.directories ++ [file]

namespace Call

/-- The paths that a call is about. -/
inductive Footprint (call : Call) : Path → Prop
  /-- The directory of a module. -/
  | module {dir : Text} : call.kind = .module → call.config.AcceptsModule call.raw dir →
    Footprint call (modulePath call.config dir)
  /-- The files of an entity: its component and its container with their tests, its story and the
  index files of its module. -/
  | file {names : Names} (spot : Spot) : call.kind ≠ .module →
    names.Accepted call.config call.raw → Footprint call (spot.path call.config names)

/-- The index files that a call may edit. -/
inductive Indexes (call : Call) : Path → Prop
  | index {names : Names} : call.kind ≠ .module → names.Accepted call.config call.raw →
    Indexes call (indexPath call.config names.moduleDir)
  | stories {names : Names} : call.kind ≠ .module → names.Accepted call.config call.raw →
    Indexes call (storiesIndexPath call.config names.moduleDir)

/-- The call keeps to its footprint in going from one tree to the other. -/
structure Confined (call : Call) (R : Route) (start t : Tree) : Prop where
  lies : ∀ path, call.Footprint path → call.config.InModule call.kind path
  /-- Elsewhere everything is as it was, but for new directories on the way to the footprint. -/
  elsewhere : ∀ s, (∀ path, call.Footprint path → ¬ R ++ path.names <+: s) →
    t.get? s = start.get? s ∨
      (start.get? s = none ∧ t.get? s = some .dir ∧
        ∃ path, call.Footprint path ∧ s <+: R ++ path.names)
  /-- Generating leaves the files that are there as they are, but for the index files. -/
  keeps : ∀ config kind raw useClass, call = .generate config kind raw useClass →
    ∀ s content, start.get? s = some (.file content) →
      t.get? s = some (.file content) ∨ ∃ path, call.Indexes path ∧ s = R ++ path.names

variable {call : Call} {jobs : List Job} {job : Job} {path : Path} {root : Path} {R : Route}
  {tree : Tree}

theorem Footprint.inModule (inside : Inside call.config.modulesPath) (h : call.Footprint path) :
    call.config.InModule call.kind path := by
  cases h with
  | @module dir hkind accepts =>
    refine ⟨dir, [], accepts.isName, rfl, ?_, ?_⟩
    · exact (descends_modulePath inside accepts.isName).names
    · rw [if_pos hkind]
  | @file names spot hkind accepted =>
    have hm := accepted.isName_moduleDir
    have worded := accepted.worded
    refine ⟨names.moduleDir, spot.tail call.config names, hm, spot.path_eq_below hm worded,
      spot.names_path inside hm worded, ?_⟩
    rw [if_neg hkind]
    exact ⟨spot, spot.file call.config names, spot.isName_file worded, rfl⟩

/-- Every job of a plan is at or below the footprint. -/
theorem Plan.within (inside : Inside call.config.modulesPath) (plan : call.Plan jobs)
    (mem : job ∈ jobs) : ∃ path, call.Footprint path ∧ path.names <+: job.path.names := by
  cases plan with
  | generateModule accepts =>
    obtain ⟨tails, -, all⟩ := Config.makes_moduleJobs inside accepts.isName
    obtain ⟨tail, -, -, down⟩ := Config.exists_tail all mem
    refine ⟨_, .module rfl accepts, ?_⟩
    rw [(descends_modulePath inside accepts.isName).names, down.names,
      List.prefix_append_right_inj]
    exact ⟨tail, rfl⟩
  | destroyModule accepts =>
    rw [List.mem_singleton.1 mem]
    exact ⟨_, .module rfl accepts, List.prefix_refl _⟩
  | generateEntity hkind accepted =>
    obtain ⟨place, -, same, -⟩ := (Names.placedAt_generation _ _ _ _).exists_place mem
    exact ⟨_, .file place.1 hkind accepted, same ▸ List.prefix_refl _⟩
  | destroyEntity hkind accepted =>
    obtain ⟨place, -, same, -⟩ := (Names.placedAt_destruction _ _ _ _).exists_place mem
    exact ⟨_, .file place.1 hkind accepted, same ▸ List.prefix_refl _⟩

/-- Generating makes what is not there and edits index files. -/
theorem Plan.generates {config : Config} {kind : EntityKind} {raw : Text} {useClass : Bool}
    (inside : Inside config.modulesPath) (plan : (generate config kind raw useClass).Plan jobs)
    (mem : job ∈ jobs) : job.mode = .making ∨
      job.mode = .editing ∧ (generate config kind raw useClass).Indexes job.path := by
  cases plan with
  | generateModule accepts =>
    obtain ⟨tails, -, all⟩ := Config.makes_moduleJobs inside accepts.isName
    obtain ⟨tail, -, making, -⟩ := Config.exists_tail all mem
    exact Or.inl making
  | @generateEntity _ _ _ _ names hkind accepted =>
    cases Names.assembles_of_mem mem with
    | write _ => exact Or.inl rfl
    | index _ _ => exact Or.inr ⟨rfl, .index hkind accepted⟩
    | stories _ => exact Or.inr ⟨rfl, .stories hkind accepted⟩

/-- Every call keeps to its footprint, whatever it comes to. -/
theorem confined_after (call : Call) (grounded : tree.Grounded root R)
    (inside : Inside call.config.modulesPath) (log : List Change) :
    call.Confined R tree (call.after root ⟨tree, log⟩).tree := by
  obtain ⟨jobs, added, planned, -, traced⟩ := call.exists_traced grounded inside log
  have within : ∀ job ∈ jobs, ∃ path, call.Footprint path ∧ path.names <+: job.path.names := by
    rcases planned with rfl | plan
    · simp
    · exact fun job mem => plan.within inside mem
  have recorded : ∀ action path, ⟨action, path⟩ ∈ added →
      ∃ above, call.Footprint above ∧ R ++ above.names <+: R ++ path.names := by
    intro action path mem
    obtain ⟨job, hjob, same, -⟩ := traced.recorded _ mem
    obtain ⟨above, covers, before⟩ := within job hjob
    rw [same] at before
    exact ⟨above, covers, (List.prefix_append_right_inj R).2 before⟩
  refine ⟨fun path h => h.inModule inside, fun s outside => ?_, ?_⟩
  · cases traced.status s with
    | same same => exact Or.inl same
    | @grown job p hjob _ _ hp hs gone dir =>
      obtain ⟨path, covers, before⟩ := within job hjob
      refine Or.inr ⟨gone, dir, path, covers, ?_⟩
      have beside := outside path covers
      rw [hs, List.prefix_append_right_inj] at beside ⊢
      exact (List.prefix_or_prefix_of_prefix before hp).resolve_left beside
    | created mem hs _ _ =>
      obtain ⟨above, covers, before⟩ := recorded _ _ mem
      exact absurd (hs ▸ before) (outside above covers)
    | updated mem hs _ _ =>
      obtain ⟨above, covers, before⟩ := recorded _ _ mem
      exact absurd (hs ▸ before) (outside above covers)
    | removed mem below _ =>
      obtain ⟨above, covers, before⟩ := recorded _ _ mem
      exact absurd (before.trans below) (outside above covers)
  · rintro config kind raw useClass rfl s content hfile
    have mode : ∀ action path, ⟨action, path⟩ ∈ added → action.mode = .making ∨
        action.mode = .editing ∧ (generate config kind raw useClass).Indexes path := by
      intro action path mem
      obtain ⟨job, hjob, same, hmode⟩ := traced.recorded _ mem
      rcases planned with rfl | plan
      · simp at hjob
      · have generates := plan.generates inside hjob
        rwa [same, hmode] at generates
    cases traced.status s with
    | same same => exact Or.inl (same.trans hfile)
    | grown _ _ _ _ _ gone _ => simp [gone] at hfile
    | created _ _ gone _ => simp [gone] at hfile
    | @updated path _ _ mem hs _ _ =>
      rcases mode _ _ mem with making | ⟨-, indexes⟩
      · cases making
      · exact Or.inr ⟨path, indexes, hs⟩
    | removed mem _ _ =>
      rcases mode _ _ mem with making | ⟨editing, -⟩
      · cases making
      · cases editing

end Call

theorem accepted_postNames : postNames.Accepted testedConfig "core:post".toList :=
  ⟨⟨"core:post".toList, some "core".toList, "post".toList⟩, "core".toList, "core".toList,
    by decide +kernel, rfl, by decide +kernel, by decide +kernel, by decide +kernel⟩

/-- A container in the module with an index file keeps to its footprint, where it is made. -/
theorem Call.confined_after_coreCall : coreTree.Grounded (.ofString ".") [] ∧
    Inside coreCall.config.modulesPath ∧
    coreCall.Footprint (Spot.container.path testedConfig postNames) ∧
    coreCall.Confined [] coreTree (coreCall.after (.ofString ".") ⟨coreTree, []⟩).tree :=
  ⟨grounded_coreTree, inside_default,
    @Call.Footprint.file coreCall postNames .container (by decide) accepted_postNames,
    Call.confined_after coreCall grounded_coreTree inside_default []⟩

end ComponentForge

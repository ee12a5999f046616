import ComponentForge.Proofs.Generator.Account
import ComponentForge.Proofs.Generator.Calls
import ComponentForge.Proofs.Index.Shortening
import ComponentForge.Proofs.Index.Withdrawal

/-!
# The order of a plan

The jobs of a plan keep apart from each other: two of them edit one index file, or neither lies on
the way to the other. A later job may lie below an earlier one only where a module is made. The edits
of generating all make their text longer and those of destroying all make it shorter, so that two
edits of one file cannot cancel out.
-/

namespace ComponentForge

open Layout ComponentForge.Tree

/-- The jobs go down from the root and keep apart, and their edits all go one way. -/
structure Orderly (Later : Text → Text → Prop) (jobs : List Job) : Prop where
  descends : ∀ job ∈ jobs, job.path.Descends job.path.names
  apart : jobs.Pairwise Job.Apart
  advances : ∀ job ∈ jobs, job.Advances Later

namespace Spot

variable {config : Config} {names : Names} {spot other : Spot}

theorem names_path (inside : Inside config.modulesPath) (hm : IsName names.moduleDir)
    (worded : names.Worded) (spot : Spot) : (spot.path config names).names =
      modulesRoute config.modulesPath ++ names.moduleDir :: spot.tail config names :=
  (descends inside hm worded spot).names

/-- No file lies on the way to another file, or at its end. -/
theorem eq_of_prefix (inside : Inside config.modulesPath) (hm : IsName names.moduleDir)
    (worded : names.Worded)
    (h : (spot.path config names).names <+: (other.path config names).names) : spot = other := by
  rw [names_path inside hm worded, names_path inside hm worded, List.prefix_append_right_inj,
    List.cons_prefix_cons] at h
  rcases List.prefix_concat_iff.1 h.2 with same | above
  · exact tail_inj same
  · exact absurd above not_prefix_directories

theorem eq_of_names (inside : Inside config.modulesPath) (hm : IsName names.moduleDir)
    (worded : names.Worded)
    (h : (spot.path config names).names = (other.path config names).names) : spot = other :=
  eq_of_prefix inside hm worded (h ▸ List.prefix_refl _)

end Spot

/-- The job is about the file, in this mode. -/
def Job.At (config : Config) (names : Names) (place : Spot × Mode) (job : Job) : Prop :=
  job.path = place.1.path config names ∧ job.mode = place.2

/-- The jobs are at some of these places, in their order. -/
def PlacedAt (config : Config) (names : Names) (places : List (Spot × Mode)) (jobs : List Job) : Prop :=
  ∃ taken, taken.Sublist places ∧ List.Forall₂ (Job.At config names) taken jobs

namespace PlacedAt

variable {config : Config} {names : Names} {places more : List (Spot × Mode)} {jobs rest : List Job}
  {job : Job} {spot : Spot} {mode : Mode}

theorem nil : PlacedAt config names [] [] :=
  ⟨[], List.Sublist.refl _, .nil⟩

theorem append (h : PlacedAt config names places jobs) (h' : PlacedAt config names more rest) :
    PlacedAt config names (places ++ more) (jobs ++ rest) := by
  obtain ⟨taken, sub, all⟩ := h
  obtain ⟨taken', sub', all'⟩ := h'
  exact ⟨taken ++ taken', sub.append sub', List.rel_append all all'⟩

theorem cons (path : job.path = spot.path config names) (hmode : job.mode = mode)
    (h : PlacedAt config names more rest) :
    PlacedAt config names ((spot, mode) :: more) (job :: rest) := by
  obtain ⟨taken, sub, all⟩ := h
  exact ⟨(spot, mode) :: taken, sub.cons_cons _, .cons ⟨path, hmode⟩ all⟩

theorem whenSet (flag : Bool) (h : PlacedAt config names places jobs) :
    PlacedAt config names places (Job.whenSet flag jobs) := by
  obtain ⟨taken, sub, all⟩ := h
  cases flag with
  | true => exact ⟨taken, sub, all⟩
  | false => exact ⟨[], List.nil_sublist _, .nil⟩

theorem mono (h : PlacedAt config names places jobs) (sub : places.Sublist more) :
    PlacedAt config names more jobs := by
  obtain ⟨taken, sub', all⟩ := h
  exact ⟨taken, sub'.trans sub, all⟩

theorem exists_place (h : PlacedAt config names places jobs) (mem : job ∈ jobs) :
    ∃ place ∈ places, job.At config names place := by
  obtain ⟨taken, sub, all⟩ := h
  induction all generalizing places with
  | nil => simp at mem
  | @cons place first taken rest at_place _ ih =>
    rcases List.mem_cons.1 mem with rfl | mem
    · exact ⟨place, sub.subset List.mem_cons_self, at_place⟩
    · exact ih mem ((List.sublist_cons_self _ _).trans sub)

/-- Places that are not both edits are at different files. -/
theorem apart (inside : Inside config.modulesPath) (hm : IsName names.moduleDir)
    (worded : names.Worded) (h : PlacedAt config names places jobs)
    (different : places.Pairwise fun a b =>
      a.2 = .editing ∧ b.2 = .editing ∨ a.1 ≠ b.1) : jobs.Pairwise Job.Apart := by
  obtain ⟨taken, sub, all⟩ := h
  replace different := different.sublist sub
  clear sub
  induction all with
  | nil => exact List.Pairwise.nil
  | @cons place first taken rest at_place all ih =>
    obtain ⟨first_different, different⟩ := List.pairwise_cons.1 different
    refine List.pairwise_cons.2 ⟨fun later mem => ?_, ih different⟩
    have at_rest : PlacedAt config names taken rest := ⟨taken, List.Sublist.refl _, all⟩
    obtain ⟨other, hother, at_other⟩ := at_rest.exists_place mem
    rcases first_different other hother with both | ne
    · exact Or.inl ⟨at_place.2.trans both.1, at_other.2.trans both.2⟩
    · refine Or.inr ⟨?_, fun _ => ?_⟩
      · rw [at_place.1, at_other.1]
        exact fun h => ne (Spot.eq_of_prefix inside hm worded h).symm
      · rw [at_place.1, at_other.1]
        exact fun h => ne (Spot.eq_of_prefix inside hm worded h)

theorem descends (inside : Inside config.modulesPath) (hm : IsName names.moduleDir)
    (worded : names.Worded) (h : PlacedAt config names places jobs) (mem : job ∈ jobs) :
    job.path.Descends job.path.names := by
  obtain ⟨place, -, same, -⟩ := h.exists_place mem
  rw [same]
  exact (Spot.descends inside hm worded place.1).along_names

end PlacedAt

namespace Names

variable (config : Config) (names : Names)

/-- Where generating works, in this order. -/
def generationPlaces : List (Spot × Mode) :=
  [ (.container, .making), (.index, .editing), (.containerTest, .making),
    (.component, .making), (.index, .editing), (.componentTest, .making),
    (.story, .making), (.stories, .editing) ]

/-- Where destroying works, in this order. -/
def destructionPlaces : List (Spot × Mode) :=
  [ (.container, .removing), (.containerTest, .removing), (.index, .editing),
    (.component, .removing), (.componentTest, .removing), (.index, .editing),
    (.story, .removing), (.stories, .editing) ]

theorem placedAt_storyJobs :
    PlacedAt config names [(.story, .making), (.stories, .editing)] (names.storyJobs config) :=
  .cons rfl rfl (.whenSet _ (.cons rfl rfl .nil))

theorem placedAt_componentJobs (useClass : Bool) :
    PlacedAt config names [(.component, .making), (.index, .editing), (.componentTest, .making),
      (.story, .making), (.stories, .editing)] (names.componentJobs config useClass) := by
  refine .cons rfl rfl ?_
  have edits : PlacedAt config names [(.index, .editing)]
      (names.extending config .index names.componentPatch) := .whenSet _ (.cons rfl rfl .nil)
  have tests : PlacedAt config names [(.componentTest, .making)] (Job.whenSet
      config.generateComponentTests [names.writing config .componentTest .component .test]) :=
    .whenSet _ (.cons rfl rfl .nil)
  exact (edits.append tests).append (.whenSet _ (placedAt_storyJobs config names))

theorem placedAt_generation (useClass : Bool) (kind : EntityKind) :
    PlacedAt config names generationPlaces (names.generation config useClass kind) := by
  have edits : PlacedAt config names [(.index, .editing)]
      (names.extending config .index names.containerPatch) := .whenSet _ (.cons rfl rfl .nil)
  have tests : PlacedAt config names [(.containerTest, .making)] (Job.whenSet
      config.generateContainerTests [names.writing config .containerTest .container .test]) :=
    .whenSet _ (.cons rfl rfl .nil)
  cases kind with
  | module => exact PlacedAt.nil.mono (List.nil_sublist _)
  | component => exact (placedAt_componentJobs config names useClass).mono (by decide)
  | container =>
    exact .cons rfl rfl ((edits.append tests).append (placedAt_componentJobs config names useClass))
  | storybook => exact (placedAt_storyJobs config names).mono (by decide)

theorem placedAt_destruction (kind : EntityKind) (storied : Bool) :
    PlacedAt config names destructionPlaces (names.destruction config kind storied) := by
  have story : PlacedAt config names [(.story, .removing), (.stories, .editing)]
      (Job.whenSet storied (names.storyRemovals config)) :=
    .whenSet _ (.cons rfl rfl (.whenSet _ (.cons rfl rfl .nil)))
  have component : PlacedAt config names [(.component, .removing), (.componentTest, .removing),
      (.index, .editing)] (names.componentRemovals config) :=
    .cons rfl rfl (.cons rfl rfl (.whenSet _ (.cons rfl rfl .nil)))
  have container : PlacedAt config names [(.container, .removing), (.containerTest, .removing),
      (.index, .editing)] (names.containerRemovals config) :=
    .cons rfl rfl (.cons rfl rfl (.whenSet _ (.cons rfl rfl .nil)))
  cases kind with
  | module => exact story.mono (by decide)
  | component => exact (component.append story).mono (by decide)
  | container => exact (container.append component).append story
  | storybook => exact story.mono (by decide)

end Names

/-- The text has got longer by lines. -/
def Longer (old new : Text) : Prop :=
  old.count '\n' < new.count '\n'

/-- The text has got shorter. -/
def Shorter (old new : Text) : Prop :=
  new.length < old.length

namespace IndexPatch

variable {patch : IndexPatch} {path : Path} {old new : Text}

theorem Regular.longer (regular : patch.Regular) : (Job.edit path patch.extend?).Advances Longer := by
  intro old new h
  refine ((adds_of_apply regular (apply_of_extend? h)).count_lt regular).resolve_left ?_
  rintro rfl
  rw [extend?_eq_none_iff.2 (apply_of_extend? h)] at h
  cases h

theorem Regular.visible (regular : patch.Regular) : patch.Visible where
  line := regular.line.ne_nil
  identifier := by
    intro listed mem
    obtain ⟨x, word, rfl⟩ := regular.entries listed mem
    exact word.ne_nil

theorem Regular.shorter (regular : patch.Regular) :
    (Job.edit path patch.revert?).Advances Shorter := by
  intro old new h
  obtain ⟨edited?, ends, shorter⟩ := patch.revert?_eq_ok old
  exact shorter new (Except.ok.inj (ends.symm.trans h)) regular.visible

end IndexPatch

namespace Names

variable {config : Config} {names : Names}

/-- The patches that generating or destroying an entity may apply. -/
structure Regular (names : Names) : Prop where
  component : names.componentPatch.Regular
  container : names.containerPatch.Regular
  story : names.storyPatch.Regular

theorem Worded.regular (h : names.Worded) : names.Regular where
  component := h.componentPatch.regular
  container := h.containerPatch.regular
  story := by
    obtain ⟨line, hline, hpatch⟩ := h.storyPatch
    exact hpatch ▸ hline.regular

theorem orderly_generation (inside : Inside config.modulesPath) (hm : IsName names.moduleDir)
    (worded : names.Worded) (useClass : Bool) (kind : EntityKind) :
    Orderly Longer (names.generation config useClass kind) where
  descends _ mem := (placedAt_generation config names useClass kind).descends inside hm worded mem
  apart := (placedAt_generation config names useClass kind).apart inside hm worded (by decide)
  advances job mem := by
    cases assembles_of_mem mem with
    | write _ => trivial
    | index _ listed => exact (worded.modulePatch listed).regular.longer
    | stories _ => exact worded.regular.story.longer

theorem orderly_destruction (inside : Inside config.modulesPath) (hm : IsName names.moduleDir)
    (worded : names.Worded) (kind : EntityKind) (storied : Bool) :
    Orderly Shorter (names.destruction config kind storied) where
  descends _ mem := (placedAt_destruction config names kind storied).descends inside hm worded mem
  apart := (placedAt_destruction config names kind storied).apart inside hm worded (by decide)
  advances job mem := by
    cases dismantles_of_mem mem with
    | remove _ _ => trivial
    | index _ listed => exact (worded.modulePatch listed).regular.shorter
    | stories _ _ => exact worded.regular.story.shorter

end Names

namespace Config

variable {config : Config} {module : Text}

/-- The names below a module that its jobs make, in their order. -/
def moduleTails : List (List Text) :=
  [ [], ["components".toList], ["containers".toList], ["index.js".toList],
    ["components".toList, "stories".toList],
    ["components".toList, "stories".toList, "index.js".toList] ]

/-- The job makes what has these names below the module. -/
def Makes (config : Config) (module : Text) (tail : List Text) (job : Job) : Prop :=
  job.mode = .making ∧
    job.path.Descends (modulesRoute config.modulesPath ++ module :: tail)

theorem exists_tail {tails : List (List Text)} {jobs : List Job} {job : Job}
    (all : List.Forall₂ (config.Makes module) tails jobs) (mem : job ∈ jobs) :
    ∃ tail ∈ tails, config.Makes module tail job := by
  induction all with
  | nil => simp at mem
  | @cons tail first tails jobs makes _ ih =>
    rcases List.mem_cons.1 mem with rfl | mem
    · exact ⟨tail, List.mem_cons_self, makes⟩
    · obtain ⟨other, hother, makes⟩ := ih mem
      exact ⟨other, List.mem_cons_of_mem _ hother, makes⟩

theorem makes_moduleJobs (inside : Inside config.modulesPath) (hm : IsName module) :
    ∃ tails, tails.Sublist moduleTails ∧
      List.Forall₂ (config.Makes module) tails (config.moduleJobs module) := by
  have dir : (modulePath config module).Descends _ := descends_modulePath inside hm
  have below : ∀ kind, kind ≠ .module → ((modulePath config module).join ⟨kind.directory⟩).Descends
      (modulesRoute config.modulesPath ++ module :: directoryNames kind) := by
    intro kind hkind
    have down := descends_directory dir kind hkind
    rwa [List.append_assoc, List.singleton_append] at down
  have first : List.Forall₂ (config.Makes module)
      [[], ["components".toList], ["containers".toList]]
      [.makeDir (modulePath config module),
        .makeDir ((modulePath config module).join ⟨EntityKind.component.directory⟩),
        .makeDir ((modulePath config module).join ⟨EntityKind.container.directory⟩)] :=
    .cons ⟨rfl, dir⟩ (.cons ⟨rfl, below .component (by decide)⟩
      (.cons ⟨rfl, below .container (by decide)⟩ .nil))
  have index : config.Makes module indexTail (.write (indexPath config module) (.ok Index.fresh)) :=
    ⟨rfl, descends_indexPath inside hm⟩
  have story : config.Makes module ["components".toList, "stories".toList]
      (.makeDir ((modulePath config module).join ⟨EntityKind.storybook.directory⟩)) :=
    ⟨rfl, below .storybook (by decide)⟩
  have stories : config.Makes module storiesTail (.write (storiesIndexPath config module) (.ok [])) :=
    ⟨rfl, descends_storiesIndexPath inside hm⟩
  rw [moduleJobs]
  cases config.useIndexFile <;> cases config.storybook
  · exact ⟨_, by decide, first⟩
  · exact ⟨_, by decide, List.rel_append first (.cons story .nil)⟩
  · exact ⟨_, by decide, List.rel_append first (.cons index .nil)⟩
  · exact ⟨_, by decide, List.rel_append first (.cons index (.cons story (.cons stories .nil)))⟩

/-- Of what is made nothing is made before a directory on the way to it. -/
theorem orderly_moduleJobs {Later : Text → Text → Prop} (inside : Inside config.modulesPath)
    (hm : IsName module) : Orderly Later (config.moduleJobs module) := by
  obtain ⟨tails, sub, all⟩ := makes_moduleJobs inside hm
  generalize config.moduleJobs module = jobs at all
  have ordered : tails.Pairwise fun earlier later => ¬ later <+: earlier := by
    refine List.Pairwise.sublist sub ?_
    decide
  clear sub
  induction all with
  | nil => exact ⟨by simp, List.Pairwise.nil, by simp⟩
  | @cons tail job tails jobs makes all ih =>
    obtain ⟨first, ordered⟩ := List.pairwise_cons.1 ordered
    have rest := ih ordered
    refine ⟨List.forall_mem_cons.2 ⟨?_, rest.descends⟩, List.pairwise_cons.2 ⟨?_, rest.apart⟩,
      List.forall_mem_cons.2 ⟨?_, rest.advances⟩⟩
    · rw [makes.2.names]
      exact makes.2
    · intro later mem
      obtain ⟨other, hother, makes'⟩ := exists_tail all mem
      refine Or.inr ⟨?_, fun other_mode => absurd makes.1 other_mode⟩
      rw [makes.2.names, makes'.2.names, List.prefix_append_right_inj, List.prefix_cons_inj]
      exact first other hother
    · cases job with
      | edit path change => cases makes.1
      | _ => trivial

end Config

theorem orderly_removal {Later : Text → Text → Prop} {path : Path} (h : path.Descends path.names) :
    Orderly Later [.remove path] :=
  ⟨List.forall_mem_singleton.2 h, List.pairwise_singleton _ _, List.forall_mem_singleton.2 trivial⟩

namespace Call

variable {call : Call} {jobs : List Job}

/-- The texts of index files go one way in a call. -/
def Later : Call → Text → Text → Prop
  | generate _ _ _ _ => Longer
  | destroy _ _ _ => Shorter

theorem Later.trans (call : Call) (a b c : Text) (h : call.Later a b) (h' : call.Later b c) :
    call.Later a c := by
  cases call with
  | generate _ _ _ _ => exact Nat.lt_trans h h'
  | destroy _ _ _ => exact Nat.lt_trans h' h

theorem Later.ne {call : Call} {a b : Text} (h : call.Later a b) : a ≠ b := by
  rintro rfl
  cases call with
  | generate _ _ _ _ => exact Nat.lt_irrefl _ h
  | destroy _ _ _ => exact Nat.lt_irrefl _ h

theorem Plan.orderly (inside : Inside call.config.modulesPath) (plan : call.Plan jobs) :
    Orderly call.Later jobs := by
  cases plan with
  | generateModule accepts => exact Config.orderly_moduleJobs inside accepts.isName
  | destroyModule accepts =>
    exact orderly_removal (descends_modulePath inside accepts.isName).along_names
  | generateEntity _ accepted =>
    exact Names.orderly_generation inside accepted.isName_moduleDir accepted.worded _ _
  | destroyEntity _ accepted =>
    exact Names.orderly_destruction inside accepted.isName_moduleDir accepted.worded _ _

end Call

end ComponentForge

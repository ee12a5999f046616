import ComponentForge.Proofs.Generator.Clearance
import ComponentForge.Proofs.Generator.Confinement

/-!
# Destroying again

An index file loses the first line with the import and the first line with the entry, and the file may
have more of them, put there by hand. Where it has no more, and the way to the modules root does not
lead through what is removed, destroying an entity a second time finds nothing to do. Destroying a
module has no such conditions.
-/

namespace ComponentForge

open Access Index Layout ComponentForge.Tree

variable {root path : Path} {config : Config} {names : Names} {kind : EntityKind} {storied : Bool}
  {m : Text} {R q : Route} {job : Job} {added : List Change} {t u : Tree}

namespace Config

theorem modulesRoot_ne_nil (config : Config) : config.modulesRoot.text ≠ [] := by
  rw [modulesRoot, Path.join]
  split
  · rename_i absolute
    intro empty
    have nothing : config.modulesPath = [] := empty
    rw [nothing] at absolute
    simp [Path.isAbsolute] at absolute
  · split <;> simp [Path.ofString]

theorem modulePath_below (root : Path) (config : Config) (hm : IsName m) :
    (root.join config.modulesRoot).Below [m] (root.join (modulePath config m)) :=
  ⟨⟨m⟩, (Path.join_join root config.modulesRoot_ne_nil (Path.Descends.of_name hm).relative).symm,
    .of_name hm⟩

end Config

theorem Spot.below (root : Path) (hm : IsName names.moduleDir) (worded : names.Worded) (spot : Spot) :
    (root.join config.modulesRoot).Below (names.moduleDir :: spot.tail config names)
      (root.join (spot.path config names)) := by
  have down : Path.Descends ⟨Text.join ['/'] (names.moduleDir :: spot.tail config names)⟩
      (names.moduleDir :: spot.tail config names) := by
    refine .of_names (List.forall_mem_cons.2 ⟨hm, List.forall_mem_append.2 ⟨?_, ?_⟩⟩)
    · exact spot.isName_of_mem_directories
    · exact List.forall_mem_singleton.2 (spot.isName_file worded)
  refine ⟨_, ?_, down⟩
  rw [spot.path_eq_below hm worded, Config.below,
    Path.join_join root config.modulesRoot_ne_nil down.relative]

namespace Names

/-- With a story more is destroyed than without. -/
theorem destruction_subset {less more : Bool} (h : less → more) :
    names.destruction config kind less ⊆ names.destruction config kind more := by
  intro job mem
  rcases List.mem_append.1 mem with mem | mem
  · exact List.mem_append_left _ mem
  · obtain ⟨story, mem⟩ := Job.mem_whenSet.1 mem
    exact List.mem_append_right _ (Job.mem_whenSet.2 ⟨h story, mem⟩)

end Names

namespace Project

variable {project : Project} {log : List Change} {raw : Text} {s : Session}

/-- The path of the directory that the modules lie in. -/
def modulesBase (project : Project) : Path :=
  project.root.join project.config.modulesRoot

/-- What is removed with the entity is not on the way to the modules root, and each index file that is
edited has the lines of the entity once at most. -/
structure Clearable (project : Project) (names : Names) (kind : EntityKind) (t : Tree) : Prop where
  /-- A file of the entity lies below `R`, the end of the way. -/
  way : ∀ R ∈ (along [] project.modulesBase.steps).getLast?, ∀ spot : Spot,
    .remove (spot.path project.config names) ∈ names.destruction project.config kind true →
    ∀ s ∈ along [] project.modulesBase.steps,
      ¬ R ++ names.moduleDir :: spot.tail project.config names <+: s
  index : project.config.useIndexFile → ∀ patch ∈ names.modulePatches kind, ∀ content,
    read (project.root.join (indexPath project.config names.moduleDir)) t = .ok content t →
    patch.Once content
  stories : project.config.useIndexFile → project.storied names kind t → ∀ content,
    read (project.root.join (storiesIndexPath project.config names.moduleDir)) t = .ok content t →
    names.storyPatch.Once content

theorem Clearable.clearing (h : project.Clearable names kind t) (hm : IsName names.moduleDir)
    (worded : names.Worded) (site : t.Site project.modulesBase R) :
    Clearing project project.modulesBase R
      ((R ++ [names.moduleDir]) :: along [] project.modulesBase.steps) t
      (names.destruction project.config kind (project.storied names kind t)) where
  way := List.subset_cons_self _ _
  pending job mem := by
    cases Names.dismantles_of_mem mem with
    | remove spot _ => exact .remove
    | index used listed =>
      exact .withdraw (worded.modulePatch listed).regular (h.index used _ listed)
    | stories used story => exact .withdraw worded.regular.story (h.stories used story)
  aside job mem := by
    cases Names.dismantles_of_mem mem with
    | index => exact ⟨_, Spot.index.below project.root hm worded, nofun⟩
    | stories => exact ⟨_, Spot.stories.below project.root hm worded, nofun⟩
    | remove spot listed =>
      refine ⟨_, spot.below project.root hm worded, fun _ s hs => ?_⟩
      rcases List.mem_cons.1 hs with rfl | hs
      · rw [List.prefix_append_right_inj, List.cons_prefix_cons]
        rintro ⟨-, below⟩
        simp [Spot.tail] at below
      · exact h.way R site.passes.getLast?_along spot (Names.destruction_subset (fun _ => rfl) listed)
          s hs

/-- Where everything is cleared away that was to go, no story turns up. -/
theorem storied_of_cleared
    (performs : project.Performs t
      (names.destruction project.config kind (project.storied names kind t)) added none u)
    (cleared : ∀ job ∈ names.destruction project.config kind (project.storied names kind t),
      job.Cleared project u) (story : project.storied names kind u) :
    project.storied names kind t := by
  by_contra none
  have unstoried : project.storied names kind t = false := by simpa using none
  have whole : names.destruction project.config kind false = names.removals project.config kind := by
    simp [Names.destruction, Job.whenSet]
  rw [unstoried, whole] at performs cleared
  -- The look for a story comes after the removals, which do nothing the second time.
  obtain ⟨_, again, -⟩ := Project.Repeats.of_settled fun job mem => (cleared job mem).settled
  rw [storied, again.treeAfter_eq] at story
  rw [storied, performs.treeAfter_eq] at unstoried
  simp [story] at unstoried

/-- Once an entity is destroyed, nothing is left to be done for it. -/
theorem repeats_destruction (clearable : project.Clearable names kind t) (plain : t.Plain)
    (hm : IsName names.moduleDir) (worded : names.Worded)
    (there : project.exists? t (modulePath project.config names.moduleDir))
    (performs : project.Performs t
      (names.destruction project.config kind (project.storied names kind t)) added none u) :
    project.exists? u (modulePath project.config names.moduleDir) ∧
      project.Repeats (names.destruction project.config kind (project.storied names kind u)) none u := by
  obtain ⟨rel, same, down⟩ := Config.modulePath_below project.root project.config hm
  have same : project.root.join (modulePath project.config names.moduleDir) =
      project.modulesBase.join rel := same
  rw [exists?, same] at there ⊢
  obtain ⟨R, site⟩ := plain.exists_site down there
  -- The module itself is kept as well, so that the name resolves again.
  obtain ⟨site', cleared, keeps⟩ := (clearable.clearing hm worded site).run site performs
  refine ⟨?_, .of_settled fun job mem => (cleared job ?_).settled⟩
  · have occupied := keeps _ List.mem_cons_self (site.isSome_of_exists? down there)
    exact site'.exists?_of_fits down (site.fits_of_exists? down there) occupied
  · exact Names.destruction_subset (storied_of_cleared performs cleared) mem

/-- Once something is removed, nothing is left to be removed there. -/
theorem repeats_removal {base path : Path} (below : base.Below q (project.root.join path))
    (performs : project.Performs t [.remove path] added none u) :
    project.Repeats [.remove path] none u := by
  refine .of_settled (List.forall_mem_singleton.2 ?_)
  cases performs with
  | step outcome rest =>
    cases rest
    exact (outcome.cleared below .remove).settled

/-- Destroying again succeeds, leaves the tree as it is and records nothing but what is missing. -/
theorem destroy_again (plain : t.Plain)
    (clearable : kind ≠ .module → ∀ names : Names, names.Accepted project.config raw →
      project.Clearable names kind t)
    (destroyed : project.destroy kind raw ⟨t, log⟩ = .ok () s) : ∀ log, ∃ again,
      (∀ change ∈ again, change.IsIdle) ∧
        project.destroy kind raw ⟨s.tree, log⟩ = .ok () ⟨s.tree, log ++ again⟩ := by
  intro more
  by_cases hkind : kind = .module
  · subst hkind
    rw [destroy_module_run] at destroyed ⊢
    cases resolved : project.moduleResolution raw with
    | error failure =>
      rw [resolved] at destroyed
      cases destroyed
    | ok dir =>
      rw [resolved] at destroyed
      obtain ⟨added, performs⟩ := performs_of_ok destroyed
      have isName := (moduleResolution_eq_ok_iff.1 resolved).isName
      have below := Config.modulePath_below project.root project.config isName
      exact (repeats_removal below performs).run_ok more
  · rw [destroy_entity_run hkind] at destroyed ⊢
    cases resolved : project.entityResolution raw t with
    | error failure =>
      rw [resolved] at destroyed
      cases destroyed
    | ok names =>
      rw [resolved] at destroyed
      obtain ⟨added, performs⟩ := performs_of_ok destroyed
      obtain ⟨accepted, there⟩ := entityResolution_eq_ok_iff.1 resolved
      obtain ⟨there', repeats⟩ := repeats_destruction (clearable hkind names accepted) plain
        accepted.isName_moduleDir accepted.worded there performs
      rw [entityResolution_eq_ok_iff.2 ⟨accepted, there'⟩]
      exact repeats.run_ok more

/-- Without a step up on the way to the modules root, what is removed is not on the way. -/
theorem aside_of_no_up (hup : .up ∉ project.modulesBase.steps) {n : Text} {q : Route} :
    ∀ R ∈ (along [] project.modulesBase.steps).getLast?,
      ∀ s ∈ along [] project.modulesBase.steps, ¬ R ++ n :: q <+: s := by
  intro R last s hs below
  obtain rfl : _ = R := Option.some.inj ((getLast?_along_of_no_up hup).symm.trans last)
  have shorter := (below.trans (prefix_of_mem_along hup hs)).length_le
  simp only [List.nil_append, List.length_append, List.length_cons] at shorter
  omega

end Project

def coreRoute : Route :=
  ["src".toList, "modules".toList, "core".toList]

/-- The module with something at the place of the component of an entity. -/
def occupied (component : Node) : Tree :=
  (coreTree.set (coreRoute ++ ["components".toList]) .dir).set
    (coreRoute ++ ["components".toList] ++ ["Post.js".toList]) component

/-- And with this index file. -/
def listing (component : Node) (index : Text) : Tree :=
  (occupied component).set (coreRoute ++ ["index.js".toList]) (.file (.text index))

theorem plain_listing {component : Node}
    (hcomponent : component = .dir ∨ component = .file (.text [])) (index : Text) :
    (listing component index).Plain := by
  have components := plain_coreTree.set_dir (d := coreRoute) (n := "components".toList)
    (by decide +kernel)
  have entity : (occupied component).Plain := by
    rcases hcomponent with rfl | rfl
    · exact components.set_dir (by decide +kernel)
    · exact components.set_file (by decide +kernel) (by decide +kernel)
  have holds : (occupied component).get? (coreRoute ++ ["index.js".toList]) =
      some (.file (.text coreIndex)) := by
    rcases hcomponent with rfl | rfl <;> decide +kernel
  exact entity.refill holds

def listedIndex : Text :=
  "import Menu from './menu';\nimport Post from './components/Post';\n\n".toList ++
    "export \x7b\n  Menu,\n  Post\n\x7d;\n".toList

theorem clearable_listing : Project.Clearable ⟨.ofString ".", testedConfig⟩ postNames .container
    (listing (.file (.text [])) listedIndex) where
  way R last spot _ := Project.aside_of_no_up (by decide +kernel) R last
  index _ patch mem content hread := by
    have listed : read ((Path.ofString ".").join (indexPath testedConfig postNames.moduleDir))
        (listing (.file (.text [])) listedIndex) =
          .ok listedIndex (listing (.file (.text [])) listedIndex) := by rfl
    obtain rfl := (EStateM.Result.ok.inj (listed.symm.trans hread)).1
    revert patch
    decide +kernel
  stories _ _ content hread := by
    obtain ⟨-, r, reads⟩ := readsAt_of_read hread
    have missing : Access.exists? (listing (.file (.text [])) listedIndex)
        ((Path.ofString ".").join (storiesIndexPath testedConfig postNames.moduleDir)) = false := by
      decide +kernel
    exact absurd reads.exists? (by rw [missing]; decide)

/-- A container is destroyed twice, whose component and its lines are all that is there. -/
theorem Project.destroy_again_listing : ∃ s,
    destroy ⟨.ofString ".", testedConfig⟩ .container "core:post".toList
      ⟨listing (.file (.text [])) listedIndex, []⟩ = .ok () s ∧
    ∃ again, (∀ change ∈ again, change.IsIdle) ∧
      destroy ⟨.ofString ".", testedConfig⟩ .container "core:post".toList ⟨s.tree, []⟩ =
        .ok () ⟨s.tree, [] ++ again⟩ := by
  have first : succeeds (destroy ⟨.ofString ".", testedConfig⟩ .container "core:post".toList)
      ⟨listing (.file (.text [])) listedIndex, []⟩ := by decide +kernel
  obtain ⟨⟨⟩, s, destroyed⟩ := exists_of_succeeds first
  refine ⟨s, destroyed, destroy_again (plain_listing (Or.inr rfl) _) ?_ destroyed []⟩
  intro _ names accepted
  obtain rfl := accepted.eq accepted_postNames
  exact clearable_listing

/-- An import line was put in a second time by hand. -/
def twiceIndex : Text :=
  "import Post from './components/Post';\nimport Post from './components/Post';\n\n".toList ++
    "export \x7b\n  Post\n\x7d;\n".toList

/-- When the entry at the end goes, the one above it gets to look like that of a container. -/
def commasIndex : Text :=
  "import Post from './components/Post';\n\nexport \x7b\n  PostContainer,,\n  Post\n\x7d;\n".toList

/-- The way to the modules root leads through a directory with the name of a component. -/
def throughConfig : Config :=
  { Config.default with modulesPath := "src/modules/core/components/Post.js/../../..".toList }

namespace Call

/-- The session of the call when it is made again, with the changes of this time only. -/
def again (root : Path) (t : Tree) (call : Call) : Session :=
  call.after root ⟨(call.after root ⟨t, []⟩).tree, []⟩

/-- What a call leaves of the lines that are listed twice, and what gets to look like an entry, the
next call finds, and it finds no module if the way to it is gone. -/
theorem destroys_more_again :
    (let call := Call.destroy indexedConfig .component "core:post".toList
      let start := listing (.file (.text [])) twiceIndex
      start.Plain ∧ succeeds (call.run (.ofString ".")) ⟨start, []⟩ ∧
        ⟨.update, indexPath indexedConfig "core".toList⟩ ∈ (call.again (.ofString ".") start).log) ∧
    (let call := Call.destroy indexedConfig .container "core:post".toList
      let start := listing (.file (.text [])) commasIndex
      start.Plain ∧ succeeds (call.run (.ofString ".")) ⟨start, []⟩ ∧
        ⟨.update, indexPath indexedConfig "core".toList⟩ ∈ (call.again (.ofString ".") start).log) ∧
    (let call := Call.destroy throughConfig .component "core:post".toList
      let start := listing .dir listedIndex
      start.Plain ∧ succeeds (call.run (.ofString ".")) ⟨start, []⟩ ∧
        succeeds (call.run (.ofString ".")) ⟨(call.after (.ofString ".") ⟨start, []⟩).tree, []⟩ =
          false) :=
  ⟨⟨plain_listing (Or.inr rfl) _, by decide +kernel, by decide +kernel⟩,
    ⟨plain_listing (Or.inr rfl) _, by decide +kernel, by decide +kernel⟩,
    plain_listing (Or.inl rfl) _, by decide +kernel, by decide +kernel⟩

end Call

end ComponentForge

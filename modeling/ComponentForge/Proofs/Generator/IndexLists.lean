import ComponentForge.Proofs.Generator.Gathers
import ComponentForge.Proofs.Generator.PatchOrder

/-!
# Index files over whole runs

A run is any sequence of calls that generate and destroy entities, each with a configuration of its
own, succeeded or failed. In an empty project directory all that such a run can make of an index file
is lists, and no call of it fails for want of an export zone.
-/

namespace ComponentForge

open Access Index Layout ComponentForge.Tree

variable {start : Tree} {root : Path} {R : Route} {modulesPath : Text}

/-- An update of the file at `r` appends to the lists what they lack of the patch, a reversal erases
what they have of it, and the outcome tells whether a list changes. -/
structure EditsBarrel (project : Project) (path : Path) (r : Route) (patch : IndexPatch)
    (identifier : Text) (barrel : Barrel) (s : Session) : Prop where
  update : ∃ added : Barrel, added.imports = appendNew barrel.imports patch.importLine ∧
    added.identifiers = appendNew barrel.identifiers identifier ∧
    project.updateIndex path patch s =
      if added.imports = barrel.imports ∧ added.identifiers = barrel.identifiers then
        .ok .unchanged s
      else .ok .updated (s.setText r added.text)
  reversal : ∃ left : Barrel, left.imports = barrel.imports.erase patch.importLine ∧
    left.identifiers = barrel.identifiers.erase identifier ∧
    project.unpatchIndex path patch s =
      if left.imports = barrel.imports ∧ left.identifiers = barrel.identifiers then
        .ok .unchanged s
      else .ok .updated (s.setText r left.text)

/-- The same for the index file of the stories, which has one list. -/
structure EditsStories (project : Project) (path : Path) (r : Route) (patch : IndexPatch)
    (stories : StoryList) (s : Session) : Prop where
  update : ∃ added : StoryList, added.imports = appendNew stories.imports patch.importLine ∧
    project.updateIndex path patch s =
      if added.imports = stories.imports then .ok .unchanged s
      else .ok .updated (s.setText r added.text)
  reversal : ∃ left : StoryList, left.imports = stories.imports.erase patch.importLine ∧
    project.unpatchIndex path patch s =
      if left.imports = stories.imports then .ok .unchanged s
      else .ok .updated (s.setText r left.text)

section Edits

variable {values : List Text} {value : Text}

theorem appendNew_eq_self_iff : appendNew values value = values ↔ value ∈ values := by
  constructor
  · intro same
    exact same ▸ mem_appendNew.2 (Or.inr rfl)
  · exact appendNew_of_mem

theorem erase_eq_self_iff : values.erase value = values ↔ value ∉ values :=
  List.erase_eq_self_iff

variable {project : Project} {path : Path} {r : Route} {s : Session} {line x : Text}

theorem Barrel.edits {barrel : Barrel}
    (reads : ReadsAt s.tree (project.root.join path) r barrel.text) (hline : IsModuleImport line)
    (hx : IsWord x) : EditsBarrel project path r ⟨line, some (entry x)⟩ x barrel s where
  update := by
    refine ⟨barrel.add hline hx, rfl, rfl, ?_⟩
    rw [Barrel.updateIndex reads hline hx]
    simp only [Barrel.add, appendNew_eq_self_iff]
  reversal := by
    refine ⟨barrel.remove line x, rfl, rfl, ?_⟩
    rw [Barrel.unpatchIndex reads hline hx]
    simp only [Barrel.remove, erase_eq_self_iff]
    by_cases present : line ∈ barrel.imports ∨ x ∈ barrel.identifiers
    · rw [if_pos present, if_neg fun absent => present.elim absent.1 absent.2]
    · rw [if_neg present, if_pos (not_or.1 present)]

theorem StoryList.edits {stories : StoryList}
    (reads : ReadsAt s.tree (project.root.join path) r stories.text) (hline : IsStoryImport line) :
    EditsStories project path r ⟨line, none⟩ stories s where
  update := by
    refine ⟨stories.add hline, rfl, ?_⟩
    rw [StoryList.updateIndex reads hline]
    simp only [StoryList.add, appendNew_eq_self_iff]
  reversal := by
    refine ⟨stories.remove line, rfl, ?_⟩
    rw [StoryList.unpatchIndex reads hline]
    simp only [StoryList.remove, erase_eq_self_iff]
    by_cases present : line ∈ stories.imports
    · rw [if_pos present, if_neg (not_not.2 present)]
    · rw [if_neg present, if_pos present]

end Edits

/-- The index files of a project are lists, the edits of its generators are edits of these lists, and
no call finds an index file without a zone. -/
structure IndexLists (root : Path) (R : Route) (modulesPath : Text) (s : Session) : Prop where
  module_index : ∀ m node,
    s.tree.get? (R ++ (modulesRoute modulesPath ++ m :: indexTail)) = some node →
      ∃ barrel : Barrel, node = .file (.text barrel.text)
  stories_index : ∀ m node,
    s.tree.get? (R ++ (modulesRoute modulesPath ++ m :: storiesTail)) = some node →
      ∃ stories : StoryList, node = .file (.text stories.text)
  module_edits : ∀ (config : Config) (raw : Text) (names : Names) (content : Text),
    config.modulesPath = modulesPath → names.Accepted config raw →
    read (root.join (indexPath config names.moduleDir)) s.tree = .ok content s.tree →
      ∃ barrel : Barrel, content = barrel.text ∧
        ∀ patch ∈ [names.componentPatch, names.containerPatch], ∀ entry ∈ patch.exportEntry,
          EditsBarrel ⟨root, config⟩ (indexPath config names.moduleDir)
            (R ++ (modulesRoute modulesPath ++ names.moduleDir :: indexTail)) patch entry.identifier
            barrel s
  stories_edits : ∀ (config : Config) (raw : Text) (names : Names) (content : Text),
    config.modulesPath = modulesPath → names.Accepted config raw →
    read (root.join (storiesIndexPath config names.moduleDir)) s.tree = .ok content s.tree →
      ∃ stories : StoryList, content = stories.text ∧
        EditsStories ⟨root, config⟩ (storiesIndexPath config names.moduleDir)
          (R ++ (modulesRoute modulesPath ++ names.moduleDir :: storiesTail)) names.storyPatch
          stories s
  locatable : ∀ call : Call, call.config.modulesPath = modulesPath → ∀ failure u,
    call.run root s = .error failure u →
      ∀ path marker, failure ≠ .unlocatableMarker path marker

/-- Whatever calls were made in an empty project directory, its index files are lists. -/
theorem Call.indexLists_afterAll (empty : EmptySite start root R) (inside : Inside modulesPath)
    {calls : List Call} (fixed : ∀ call ∈ calls, call.config.modulesPath = modulesPath)
    (log : List Change) : IndexLists root R modulesPath (afterAll root ⟨start, log⟩ calls) := by
  have gathered := Call.gathered_afterAll empty inside fixed (s := ⟨start, log⟩) empty.gathered
  generalize afterAll root ⟨start, log⟩ calls = s at gathered
  constructor
  · intro m node hnode
    obtain ⟨barrel, rfl, -⟩ := gathered.barrels m node hnode
    exact ⟨barrel, rfl⟩
  · exact gathered.stories
  · rintro config raw names content rfl accepted hread
    obtain ⟨barrel, rfl, -, reads⟩ :=
      gathered.barrel_of_read empty inside accepted.isName_moduleDir hread
    refine ⟨barrel, rfl, fun patch hpatch entry hentry => ?_⟩
    have built : IsModulePatch patch := by
      rcases List.mem_cons.1 hpatch with rfl | hpatch
      · exact accepted.worded.componentPatch
      · exact List.mem_singleton.1 hpatch ▸ accepted.worded.containerPatch
    obtain ⟨line, x, hline, hx, rfl⟩ := built
    obtain rfl : Index.entry x = entry := by simpa using hentry
    exact Barrel.edits reads hline hx
  · rintro config raw names content rfl accepted hread
    obtain ⟨stories, rfl, reads⟩ :=
      gathered.stories_of_read empty inside accepted.isName_moduleDir hread
    obtain ⟨line, hline, hpatch⟩ := accepted.worded.storyPatch
    rw [hpatch]
    exact ⟨stories, rfl, StoryList.edits reads hline⟩
  · rintro call rfl failure u failed
    have kept := Call.gathers_run empty inside (fun _ => trivial)
      (fun _ _ _ _ => ⟨fun _ _ _ _ _ => trivial, fun _ _ _ => trivial⟩) s gathered
    rw [failed] at kept
    exact kept.2

theorem emptySite_empty : EmptySite Tree.empty (.ofString ".") [] where
  site := ⟨plain_empty, .stay (.nil [])⟩
  bare := by
    intro q hq
    rw [get?_empty, List.nil_append, if_neg hq]

/-- A module with a container and without the component that came with it. -/
def postCalls : List Call :=
  [ .generate indexedConfig .module "core".toList false,
    .generate snakeConfig .container "core:post".toList false,
    .destroy snakeConfig .component "core:post".toList ]

theorem Call.indexLists_postCalls :
    IndexLists (.ofString ".") [] Config.default.modulesPath
      (afterAll (.ofString ".") ⟨Tree.empty, []⟩ postCalls) ∧
    (afterAll (.ofString ".") ⟨Tree.empty, []⟩ postCalls).tree.get?
        (modulesRoute Config.default.modulesPath ++ "core".toList :: indexTail) =
      some (.file (.text ("import PostContainer from './containers/post_container';\n".toList ++
        "export \x7b\n  PostContainer\n\x7d;\n".toList))) :=
  ⟨Call.indexLists_afterAll emptySite_empty inside_default (by decide) [], by decide +kernel⟩

end ComponentForge

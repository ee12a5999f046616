import ComponentForge.Proofs.Generator.Gathered

/-!
# Edits of gathered index files

An index file that can be opened in a gathered tree holds lists, and an edit does to it exactly what
its patch does to the lists.
-/

namespace ComponentForge

open Access Index Layout ComponentForge.Tree

variable {start : Tree} {project : Project} {root path : Path} {config : Config} {R : Route}
  {P : Text → Barrel → Prop} {m line x content : Text} {s : Session}

namespace Gathered

/-- The text that can be read at an index path is the text of a barrel. -/
theorem barrel_of_read (gathered : Gathered start R config.modulesPath P s.tree)
    (empty : EmptySite start root R) (inside : Inside config.modulesPath) (hm : IsName m)
    (hread : read (root.join (indexPath config m)) s.tree = .ok content s.tree) :
    ∃ barrel : Barrel, content = barrel.text ∧ P m barrel ∧
      ReadsAt s.tree (root.join (indexPath config m))
        (R ++ (modulesRoute config.modulesPath ++ m :: indexTail)) content := by
  obtain ⟨-, reads, -⟩ := (gathered.site empty).of_read (descends_indexPath inside hm) hread
  obtain ⟨barrel, hnode, holds⟩ := gathered.barrels m _ reads.holds
  refine ⟨barrel, ?_, holds, reads⟩
  simpa using hnode

theorem stories_of_read (gathered : Gathered start R config.modulesPath P s.tree)
    (empty : EmptySite start root R) (inside : Inside config.modulesPath) (hm : IsName m)
    (hread : read (root.join (storiesIndexPath config m)) s.tree = .ok content s.tree) :
    ∃ stories : StoryList, content = stories.text ∧
      ReadsAt s.tree (root.join (storiesIndexPath config m))
        (R ++ (modulesRoute config.modulesPath ++ m :: storiesTail)) content := by
  obtain ⟨-, reads, -⟩ := (gathered.site empty).of_read (descends_storiesIndexPath inside hm) hread
  obtain ⟨stories, hnode⟩ := gathered.stories m _ reads.holds
  refine ⟨stories, ?_, reads⟩
  simpa using hnode

end Gathered

namespace Barrel

variable {r : Route} {barrel : Barrel}

/-- An update appends what is absent and says whether anything was. -/
theorem updateIndex (reads : ReadsAt s.tree (project.root.join path) r barrel.text)
    (hline : IsModuleImport line) (hx : IsWord x) :
    project.updateIndex path ⟨line, some (entry x)⟩ s =
      if line ∈ barrel.imports ∧ x ∈ barrel.identifiers then .ok .unchanged s
      else .ok .updated (s.setText r (barrel.add hline hx).text) := by
  rw [Project.updateIndex_of_readsAt reads (barrel.apply_text hline hx)]
  simp only [barrel.text_add_eq_iff hline hx]

/-- A reversal erases what is present and says whether anything was. -/
theorem unpatchIndex (reads : ReadsAt s.tree (project.root.join path) r barrel.text)
    (hline : IsModuleImport line) (hx : IsWord x) :
    project.unpatchIndex path ⟨line, some (entry x)⟩ s =
      if line ∈ barrel.imports ∨ x ∈ barrel.identifiers then
        .ok .updated (s.setText r (barrel.remove line x).text)
      else .ok .unchanged s := by
  have reverted := barrel.revert?_text hline hx
  by_cases present : line ∈ barrel.imports ∨ x ∈ barrel.identifiers
  · rw [if_pos present] at reverted ⊢
    exact Project.unpatchIndex_of_readsAt reads reverted
  · rw [if_neg present] at reverted ⊢
    exact Project.unpatchIndex_of_readsAt reads reverted

end Barrel

namespace StoryList

variable {r : Route} {stories : StoryList}

theorem updateIndex (reads : ReadsAt s.tree (project.root.join path) r stories.text)
    (hline : IsStoryImport line) :
    project.updateIndex path ⟨line, none⟩ s =
      if line ∈ stories.imports then .ok .unchanged s
      else .ok .updated (s.setText r (stories.add hline).text) := by
  rw [Project.updateIndex_of_readsAt reads (stories.apply_text hline)]
  simp only [stories.text_add_eq_iff hline]

theorem unpatchIndex (reads : ReadsAt s.tree (project.root.join path) r stories.text)
    (hline : IsStoryImport line) :
    project.unpatchIndex path ⟨line, none⟩ s =
      if line ∈ stories.imports then .ok .updated (s.setText r (stories.remove line).text)
      else .ok .unchanged s := by
  have reverted := stories.revert?_text hline
  by_cases present : line ∈ stories.imports
  · rw [if_pos present] at reverted ⊢
    exact Project.unpatchIndex_of_readsAt reads reverted
  · rw [if_neg present] at reverted ⊢
    exact Project.unpatchIndex_of_readsAt reads reverted

end StoryList

end ComponentForge

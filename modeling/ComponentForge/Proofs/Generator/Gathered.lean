import ComponentForge.Proofs.Generator.Resolve
import ComponentForge.Proofs.Generator.Session
import ComponentForge.Proofs.Index.Barrel
import ComponentForge.Proofs.Tree.Removal

/-!
# Trees whose index files are lists

What a project makes of an empty directory: everything that stood outside still stands, and every
index file holds the lists of a barrel. A condition on the barrels of each module is kept by every
step that keeps it where it edits an index file.
-/

namespace ComponentForge

open Access Layout ComponentForge.Tree

/-- The root path leads to an empty directory of a tree without links. -/
structure EmptySite (start : Tree) (root : Path) (R : Route) : Prop where
  site : start.Site root R
  bare : ∀ q, q ≠ [] → start.get? (R ++ q) = none

/-- What stood at the start still stands, and the index files of every module hold lists. The barrel
of a module meets the condition `P`. -/
structure Gathered (start : Tree) (R : Route) (modulesPath : Text) (P : Text → Barrel → Prop)
    (t : Tree) : Prop where
  plain : t.Plain
  kept : ∀ s node, start.get? s = some node → t.get? s = some node
  barrels : ∀ m node, t.get? (R ++ (modulesRoute modulesPath ++ m :: indexTail)) = some node →
    ∃ barrel : Barrel, node = .file (.text barrel.text) ∧ P m barrel
  stories : ∀ m node, t.get? (R ++ (modulesRoute modulesPath ++ m :: storiesTail)) = some node →
    ∃ stories : StoryList, node = .file (.text stories.text)

variable {start t u : Tree} {root path : Path} {R : Route} {modulesPath m text : Text}
  {P : Text → Barrel → Prop} {tail : List Text}

theorem EmptySite.gathered (empty : EmptySite start root R) : Gathered start R modulesPath P start where
  plain := empty.site.plain
  kept _ _ h := h
  barrels m node h := by simp [empty.bare] at h
  stories m node h := by simp [empty.bare] at h

namespace Gathered

theorem site (gathered : Gathered start R modulesPath P t) (empty : EmptySite start root R) :
    t.Site root R :=
  empty.site.mono gathered.plain fun s hs => gathered.kept s .dir hs

/-- An index file that is not on the way is not one of the new directories. -/
theorem same_of_grown {q other : List Text} (hq : q <+: modulesRoute modulesPath ++ m :: tail)
    (hother : ¬ other <+: tail) (m' : Text) {s : Route}
    (hs : s = R ++ (modulesRoute modulesPath ++ m' :: other))
    (h : u.get? s = t.get? s ∨ (∃ p, p ≠ [] ∧ p <+: q ∧ s = R ++ p) ∧ t.get? s = none ∧
      u.get? s = some .dir) : u.get? s = t.get? s := by
  rcases h with same | ⟨⟨p, -, hp, rfl⟩, -, -⟩
  · exact same
  · obtain rfl := List.append_cancel_left hs
    have inside := (List.prefix_append_right_inj _).1 (hp.trans hq)
    exact absurd (List.cons_prefix_cons.1 inside).2 hother

theorem grown (gathered : Gathered start R modulesPath P t)
    (h : Grown R (modulesRoute modulesPath ++ m :: tail) t u) (plain : u.Plain) (aside : Aside tail) :
    Gathered start R modulesPath P u where
  plain := plain
  kept s node hs := h.stays (gathered.kept s node hs)
  barrels m' node hnode := by
    rw [same_of_grown (List.prefix_refl _) aside.index m' rfl (h _)] at hnode
    exact gathered.barrels m' node hnode
  stories m' node hnode := by
    rw [same_of_grown (List.prefix_refl _) aside.stories m' rfl (h _)] at hnode
    exact gathered.stories m' node hnode

/-- What holds of the index files after one file was written. -/
theorem filled (gathered : Gathered start R modulesPath P t) (empty : EmptySite start root R)
    (h : Filled R (modulesRoute modulesPath ++ m :: tail) text t u) (plain : u.Plain)
    (hne : tail ≠ []) (aside : Aside tail.dropLast)
    (index : tail = indexTail → ∃ barrel : Barrel, text = barrel.text ∧ P m barrel)
    (stories : tail = storiesTail → ∃ stories : StoryList, text = stories.text) :
    Gathered start R modulesPath P u := by
  have way : (modulesRoute modulesPath ++ m :: tail).dropLast =
      modulesRoute modulesPath ++ m :: tail.dropLast := by
    rw [List.dropLast_append_of_ne_nil (by simp), List.dropLast_cons_of_ne_nil hne]
  have others := h.others
  rw [way] at others
  refine ⟨plain, fun s node hs => ?_, fun m' node hnode => ?_, fun m' node hnode => ?_⟩
  · have there := gathered.kept s node hs
    have elsewhere : s ≠ R ++ (modulesRoute modulesPath ++ m :: tail) := by
      rintro rfl
      simp [empty.bare] at hs
    rcases others s elsewhere with same | ⟨-, gone, -⟩
    · rw [same, there]
    · simp [there] at gone
  · by_cases target : modulesRoute modulesPath ++ m' :: indexTail =
        modulesRoute modulesPath ++ m :: tail
    · obtain ⟨rfl, rfl⟩ := List.cons.inj (List.append_cancel_left target)
      rw [h.holds] at hnode
      obtain ⟨barrel, rfl, holds⟩ := index rfl
      exact ⟨barrel, (Option.some.inj hnode).symm, holds⟩
    · have elsewhere := others (R ++ (modulesRoute modulesPath ++ m' :: indexTail))
        fun same => target (List.append_cancel_left same)
      rw [same_of_grown (List.prefix_refl _) aside.index m' rfl elsewhere] at hnode
      exact gathered.barrels m' node hnode
  · by_cases target : modulesRoute modulesPath ++ m' :: storiesTail =
        modulesRoute modulesPath ++ m :: tail
    · obtain ⟨rfl, rfl⟩ := List.cons.inj (List.append_cancel_left target)
      rw [h.holds] at hnode
      obtain ⟨list, rfl⟩ := stories rfl
      exact ⟨list, (Option.some.inj hnode).symm⟩
    · have elsewhere := others (R ++ (modulesRoute modulesPath ++ m' :: storiesTail))
        fun same => target (List.append_cancel_left same)
      rw [same_of_grown (List.prefix_refl _) aside.stories m' rfl elsewhere] at hnode
      exact gathered.stories m' node hnode

theorem shrunk (gathered : Gathered start R modulesPath P t) (empty : EmptySite start root R)
    {q : List Text} (hq : q ≠ []) (h : Shrunk (R ++ q) t u) (plain : u.Plain) :
    Gathered start R modulesPath P u where
  plain := plain
  kept s node hs := by
    rcases h s with same | ⟨⟨more, rfl⟩, -⟩
    · rw [same, gathered.kept s node hs]
    · rw [List.append_assoc, empty.bare _ (by simp [hq])] at hs
      simp at hs
  barrels m node hnode := by
    rcases h (R ++ (modulesRoute modulesPath ++ m :: indexTail)) with same | ⟨-, gone⟩
    · exact gathered.barrels m node (same ▸ hnode)
    · simp [gone] at hnode
  stories m node hnode := by
    rcases h (R ++ (modulesRoute modulesPath ++ m :: storiesTail)) with same | ⟨-, gone⟩
    · exact gathered.stories m node (same ▸ hnode)
    · simp [gone] at hnode

end Gathered

end ComponentForge

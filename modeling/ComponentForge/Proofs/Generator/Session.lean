import ComponentForge.Generator.Session
import ComponentForge.Proofs.Tree.Rewrite

/-!
# Index files in a session

An index file that can be read is edited as a text: the outcome tells whether the edit changed it,
and the session has the edited text in its place.
-/

namespace ComponentForge

open Access

namespace Session

/-- The session with another text in a file. -/
def setText (s : Session) (r : Route) (text : Text) : Session :=
  { s with tree := s.tree.set r (.file (.text text)) }

theorem readsAt_setText {s : Session} {path : Path} {r : Route} {content : Text}
    (h : ReadsAt s.tree path r content) (new : Text) : ReadsAt (s.setText r new).tree path r new :=
  h.set new

end Session

namespace Project

variable {project : Project} {path : Path} {s : Session} {r : Route} {content : Text}

/-- Opening an index file changes nothing, whatever comes of it. -/
theorem openIndex?_cases (project : Project) (path : Path) (s : Session) :
    (project.exists? s.tree path = false ∧ project.openIndex? path s = .ok none s) ∨
      (∃ cause, project.openIndex? path s = .error (.access path cause) s) ∨
      ∃ content, project.openIndex? path s = .ok (some content) s ∧
        read (project.root.join path) s.tree = .ok content s.tree := by
  rw [openIndex?, get_bind_run]
  by_cases there : project.exists? s.tree path
  · simp only [there, if_true]
    cases hread : read (project.root.join path) s.tree with
    | ok content t =>
      obtain ⟨rfl, -⟩ := read_eq_ok_iff.1 hread
      have accessed : Run.access path (read (project.root.join path)) s = .ok content s := by
        simp [Run.access, hread]
      rw [bind_of_ok accessed]
      exact Or.inr (Or.inr ⟨content, rfl, rfl⟩)
    | error cause t =>
      obtain rfl := ofExcept_error hread
      have accessed : Run.access path (read (project.root.join path)) s =
          .error (.access path cause) s := by
        simp [Run.access, hread]
      rw [bind_of_error accessed]
      exact Or.inr (Or.inl ⟨cause, rfl⟩)
  · simp only [there, Bool.false_eq_true, if_false]
    exact Or.inl ⟨trivial, rfl⟩

theorem openIndex?_of_readsAt (h : ReadsAt s.tree (project.root.join path) r content) :
    project.openIndex? path s = .ok (some content) s := by
  have there : project.exists? s.tree path := h.exists?
  have content_read : Run.access path (read (project.root.join path)) s = .ok content s := by
    simp [Run.access, h.read]
  rw [openIndex?, get_bind_run, if_pos there, bind_of_ok content_read, pure_run]

theorem saveIndex_of_readsAt (h : ReadsAt s.tree (project.root.join path) r content) (new : Text) :
    project.saveIndex path new s = .ok () (s.setText r new) := by
  simp [saveIndex, Run.access, h.write, Session.setText]

theorem updateIndex_of_readsAt (h : ReadsAt s.tree (project.root.join path) r content)
    {patch : IndexPatch} {edited : Text} (applied : patch.apply content = .ok edited) :
    project.updateIndex path patch s =
      if edited = content then .ok .unchanged s else .ok .updated (s.setText r edited) := by
  rw [updateIndex, bind_of_ok (openIndex?_of_readsAt h)]
  simp only [applied, Run.ofExcept]
  rw [bind_of_ok (pure_run _ _)]
  by_cases same : edited = content
  · rw [if_pos same, if_pos same, pure_run]
  · rw [if_neg same, if_neg same, bind_of_ok (saveIndex_of_readsAt h _), pure_run]

theorem unpatchIndex_of_readsAt (h : ReadsAt s.tree (project.root.join path) r content)
    {patch : IndexPatch} {edited? : Option Text} (reverted : patch.revert? content = .ok edited?) :
    project.unpatchIndex path patch s = match edited? with
      | none => .ok .unchanged s
      | some edited => .ok .updated (s.setText r edited) := by
  rw [unpatchIndex, bind_of_ok (openIndex?_of_readsAt h)]
  simp only [reverted, Run.ofExcept]
  rw [bind_of_ok (pure_run _ _)]
  cases edited? with
  | none => rfl
  | some edited => exact bind_of_ok (saveIndex_of_readsAt h edited)

end Project

end ComponentForge

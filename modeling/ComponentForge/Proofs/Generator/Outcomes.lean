import ComponentForge.Proofs.Generator.PlanOrder
import ComponentForge.Proofs.Generator.Promises

/-!
# What the outcome of a patch tells

A patch is worked out in memory and written once. So whatever fails, fails before the file is
written, and the outcome tells what happened to the tree: only an update changes it, and it changes
the text of the one file at the path to another text.
-/

namespace ComponentForge

open Access Index

namespace IndexPatch

variable {patch : IndexPatch} {content new : Text} {fault : EditFault}

/-- A patch is refused only for want of an export zone. -/
theorem exists_unlocatable (h : patch.extend? content = .error fault) :
    ∃ marker, fault = .unlocatable marker := by
  cases applied : patch.apply content with
  | ok edited => simp [extend?, applied, Except.map] at h
  | error cause =>
    obtain rfl : cause = fault := by simpa [extend?, applied, Except.map] using h
    rw [apply] at applied
    split at applied
    · cases applied
    · split_ifs at applied
      all_goals exact ⟨_, (insertExport_error_iff.1 applied).2⟩

theorem ne_of_extend? (h : patch.extend? content = .ok (some new)) : new ≠ content := by
  rintro rfl
  rw [extend?_eq_none_iff.2 (apply_of_extend? h)] at h
  cases h

end IndexPatch

/-- What becomes of a session when the text of an index file is changed. -/
inductive Edited (project : Project) (path : Path) (s : Session)
    (change : Text → Except EditFault (Option Text)) :
    EStateM.Result Failure Session PatchOutcome → Prop
  | missing : project.exists? s.tree path = false → Edited project path s change (.ok .missing s)
  | unread {cause : Cause} : project.exists? s.tree path →
    Edited project path s change (.error (.access path cause) s)
  | refused {r : Route} {content : Text} {fault : EditFault} :
    ReadsAt s.tree (project.root.join path) r content → change content = .error fault →
    Edited project path s change (.error (.ofEditFault path fault) s)
  | kept {r : Route} {content : Text} : ReadsAt s.tree (project.root.join path) r content →
    change content = .ok none → Edited project path s change (.ok .unchanged s)
  | changed {r : Route} {content new : Text} : ReadsAt s.tree (project.root.join path) r content →
    change content = .ok (some new) → Edited project path s change (.ok .updated (s.setText r new))

/-- The path is not refused, and something stands there, were it a link that leads nowhere. -/
def Tree.Occupied (t : Tree) (path : Path) : Prop :=
  ∃ r node, checkPath path = .ok () ∧ t.place path.lookupSteps = .ok r ∧ t.get? r = some node

/-- What the result of a patch tells about the session before and after it. -/
def Truthful (project : Project) (path : Path) (s : Session) :
    EStateM.Result Failure Session PatchOutcome → Prop
  | .error failure u => s.tree.Occupied (project.root.join path) ∧ u = s ∧
    ((∃ cause, failure = .access path cause) ∨ ∃ marker, failure = .unlocatableMarker path marker)
  | .ok .missing u => ¬ s.tree.Occupied (project.root.join path) ∧ u = s
  | .ok .unchanged u => s.tree.Occupied (project.root.join path) ∧ u = s
  | .ok .updated u => s.tree.Occupied (project.root.join path) ∧
    ∃ r old new, ReadsAt s.tree (project.root.join path) r old ∧
      ReadsAt u.tree (project.root.join path) r new ∧ new ≠ old ∧ SameElsewhere s u r

section Results

variable {project : Project} {path : Path} {s : Session}

theorem exists?_iff_occupied :
    project.exists? s.tree path ↔ s.tree.Occupied (project.root.join path) := by
  simp only [Project.exists?, Tree.exists?_iff, Tree.find_eq_ok_iff, true_and, Tree.Occupied]

/-- The file is read first, and the rest of an edit works on its text. -/
theorem Edited.of_open {change : Text → Except EditFault (Option Text)}
    {edit : Option Text → Run PatchOutcome} (absent : edit none s = .ok .missing s)
    (present : ∀ r content, ReadsAt s.tree (project.root.join path) r content →
      Edited project path s change (edit (some content) s)) :
    Edited project path s change ((project.openIndex? path >>= edit) s) := by
  cases there : project.exists? s.tree path with
  | false =>
    have opened : project.openIndex? path s = .ok none s := by
      rw [Project.openIndex?, get_bind_run, there]
      rfl
    rw [bind_of_ok opened, absent]
    exact .missing there
  | true =>
    rcases project.openIndex?_cases path s with ⟨gone, -⟩ | ⟨cause, failed⟩ | ⟨content, opened, reads⟩
    · rw [there] at gone
      cases gone
    · rw [bind_of_error failed]
      exact .unread there
    · obtain ⟨-, r, reads_at⟩ := readsAt_of_read reads
      rw [bind_of_ok opened]
      exact present r content reads_at

theorem edited_updateIndex (project : Project) (path : Path) (patch : IndexPatch) (s : Session) :
    Edited project path s patch.extend? (project.updateIndex path patch s) := by
  refine Edited.of_open rfl fun r content reads => ?_
  dsimp only
  cases applied : patch.apply content with
  | error fault => exact .refused reads (by simp [IndexPatch.extend?, applied, Except.map])
  | ok edited =>
    rw [bind_of_ok (Run.ofExcept_ok edited s)]
    by_cases same : edited = content
    · rw [if_pos same]
      exact .kept reads (by simp [IndexPatch.extend?, applied, Except.map, same])
    · rw [if_neg same, bind_of_ok (Project.saveIndex_of_readsAt reads edited)]
      exact .changed reads (by simp [IndexPatch.extend?, applied, Except.map, same])

theorem edited_unpatchIndex (project : Project) (path : Path) (patch : IndexPatch) (s : Session) :
    Edited project path s patch.revert? (project.unpatchIndex path patch s) := by
  refine Edited.of_open rfl fun r content reads => ?_
  dsimp only
  cases reverted : patch.revert? content with
  | error fault => exact .refused reads reverted
  | ok edited? =>
    rw [bind_of_ok (Run.ofExcept_ok edited? s)]
    cases edited? with
    | none => exact .kept reads reverted
    | some edited =>
      dsimp only
      rw [bind_of_ok (Project.saveIndex_of_readsAt reads edited)]
      exact .changed reads reverted

/-- If a change can only be refused for want of a zone and gives no text that it was given, its outcome
is truthful. -/
theorem Edited.truthful {change : Text → Except EditFault (Option Text)}
    {result : EStateM.Result Failure Session PatchOutcome}
    (edited : Edited project path s change result)
    (refuses : ∀ content fault, change content = .error fault → ∃ marker, fault = .unlocatable marker)
    (changes : ∀ content new, change content = .ok (some new) → new ≠ content) :
    Truthful project path s result := by
  cases edited with
  | missing gone =>
    refine ⟨?_, rfl⟩
    rw [← exists?_iff_occupied]
    simp [gone]
  | unread stands => exact ⟨exists?_iff_occupied.1 stands, rfl, Or.inl ⟨_, rfl⟩⟩
  | @refused r content fault reads refused =>
    obtain ⟨marker, rfl⟩ := refuses content fault refused
    exact ⟨exists?_iff_occupied.1 reads.exists?, rfl, Or.inr ⟨marker, rfl⟩⟩
  | kept reads => exact ⟨exists?_iff_occupied.1 reads.exists?, rfl⟩
  | @changed r content new reads changed =>
    exact ⟨exists?_iff_occupied.1 reads.exists?, r, content, new, reads,
      Session.readsAt_setText reads new, changes content new changed, sameElsewhere_setText reads new⟩

/-- The outcomes of adding a patch to an index file and of taking it back are truthful: a failure and
every outcome but an update leave the session as it was, nothing is missing unless nothing stands at
the path, and an update replaces the text of the file at the path by another one and nothing else. -/
theorem patch_truthful (project : Project) (path : Path) (s : Session) {patch : IndexPatch}
    (visible : patch.Visible) : Truthful project path s (project.updateIndex path patch s) ∧
      Truthful project path s (project.unpatchIndex path patch s) := by
  constructor
  · exact (edited_updateIndex project path patch s).truthful (fun _ _ => IndexPatch.exists_unlocatable)
      fun _ _ => IndexPatch.ne_of_extend?
  · refine (edited_unpatchIndex project path patch s).truthful (fun content fault refused => ?_)
      fun content new reverted => ?_
    · obtain ⟨edited?, ends, -⟩ := patch.revert?_eq_ok content
      rw [ends] at refused
      cases refused
    · obtain ⟨edited?, ends, shorter⟩ := patch.revert?_eq_ok content
      obtain rfl := Except.ok.inj (ends.symm.trans reverted)
      rintro rfl
      exact absurd (shorter new rfl visible) (Nat.lt_irrefl _)

end Results

/-- An index file without a zone, so that the import line of the patch would find a place and its entry
would not. -/
def zonelessSession : Session :=
  ⟨⟨[(["index.js".toList], .file (.text "import A from 'a';".toList))]⟩, []⟩

def homePatch : IndexPatch :=
  ⟨"import Home from './Home';".toList, some ⟨"export \x7b".toList, "Home".toList, true⟩⟩

theorem patch_truthful_zonelessSession : homePatch.Visible ∧
    Truthful hereProject (.ofString "index.js") zonelessSession
      (hereProject.updateIndex (.ofString "index.js") homePatch zonelessSession) ∧
    Truthful hereProject (.ofString "index.js") zonelessSession
      (hereProject.unpatchIndex (.ofString "index.js") homePatch zonelessSession) := by
  have visible : homePatch.Visible := by
    refine ⟨by decide, fun entry mem => ?_⟩
    obtain rfl := Option.some.inj mem
    decide
  exact ⟨visible, patch_truthful hereProject (.ofString "index.js") zonelessSession visible⟩

end ComponentForge

import ComponentForge.Proofs.Generator.Jobs
import ComponentForge.Proofs.Tree.Grounded
import ComponentForge.Proofs.Tree.Making

/-!
# What jobs do to a tree

Below a grounded root the outcome of a job is one of a few shifts of the tree, each with the change
that is recorded for it. A making job that breaks off leaves directories at most, and records
nothing. At a single route a shift has one of a few effects, whatever is recorded.
-/

namespace ComponentForge

open Access ComponentForge.Tree

/-- What a job or a change is about. -/
inductive Mode where
  | making
  | editing
  | removing
deriving DecidableEq

def Action.mode : Action → Mode
  | create => .making
  | .exists => .making
  | update => .editing
  | missing => .editing
  | remove => .removing

namespace Job

def mode : Job → Mode
  | write _ _ => .making
  | makeDir _ => .making
  | edit _ _ => .editing
  | remove _ => .removing

/-- Every edit of the job goes from a text to a later one. -/
def Advances (Later : Text → Text → Prop) : Job → Prop
  | edit _ change => ∀ old new, change old = .ok (some new) → Later old new
  | _ => True

/-- The directory is new and lies on the way along the names or at its end. -/
def NewDir (R q : Route) (t u : Tree) (s : Route) : Prop :=
  (∃ p, p ≠ [] ∧ p <+: q ∧ s = R ++ p) ∧ t.get? s = none ∧ u.get? s = some .dir

theorem NewDir.free {R q s : Route} {t u : Tree} (h : NewDir R q t u s) :
    (∃ p, p <+: q ∧ s = R ++ p) ∧ t.get? s = none := by
  obtain ⟨⟨p, -, hp, hs⟩, gone, -⟩ := h
  exact ⟨⟨p, hp, hs⟩, gone⟩

/-- How a job may change the tree, and what it records of it. -/
inductive Shift (project : Project) (R : Route) (Later : Text → Text → Prop) (t : Tree) (job : Job) :
    List Change → Tree → Prop
  | rest : Shift project R Later t job [] t
  | found : job.mode = .making → project.exists? t job.path = true →
    Shift project R Later t job [⟨.exists, job.path⟩] t
  | lacking : job.mode = .editing → project.exists? t job.path = false →
    Shift project R Later t job [⟨.missing, job.path⟩] t
  | brokenOff {u : Tree} : job.mode = .making → Grown R job.path.names t u →
    Shift project R Later t job [] u
  | made {u : Tree} : job.mode = .making → t.get? (R ++ job.path.names) = none →
    (u.get? (R ++ job.path.names)).isSome →
    (∀ s, s ≠ R ++ job.path.names → u.get? s = t.get? s ∨ NewDir R job.path.names t u s) →
    Shift project R Later t job [⟨.create, job.path⟩] u
  | edited {old new : Text} : job.mode = .editing →
    t.get? (R ++ job.path.names) = some (.file (.text old)) → Later old new →
    Shift project R Later t job [⟨.update, job.path⟩]
      (t.set (R ++ job.path.names) (.file (.text new)))
  | removed {u : Tree} : job.mode = .removing → (t.get? (R ++ job.path.names)).isSome →
    (∀ s, u.get? s = if R ++ job.path.names <+: s then none else t.get? s) →
    Shift project R Later t job [⟨.remove, job.path⟩] u

variable {project : Project} {R : Route} {Later : Text → Text → Prop} {t u : Tree} {job : Job}
  {added : List Change} {failure : Option Failure}

/-- A making job leaves the root grounded. -/
theorem grounded_of_made (grounded : t.Grounded project.root R) (plain : u.Plain)
    (descends : job.path.Descends job.path.names)
    (others : ∀ s, s ≠ R ++ job.path.names →
      u.get? s = t.get? s ∨ NewDir R job.path.names t u s) : u.Grounded project.root R := by
  refine grounded.of_same_outside plain fun s outside => ?_
  have other : s ≠ R ++ job.path.names := by
    rintro rfl
    exact outside ⟨R.prefix_append _, by simpa using descends.ne_nil⟩
  rcases others s other with same | ⟨⟨p, hp, -, rfl⟩, -⟩
  · exact same
  · exact absurd ⟨R.prefix_append p, by simpa using hp⟩ outside

/-- Every outcome of a job is one of the shifts. -/
theorem Outcome.shift (grounded : t.Grounded project.root R)
    (descends : job.path.Descends job.path.names) (advances : job.Advances Later)
    (h : job.Outcome project t added failure u) :
    job.Shift project R Later t added u ∧ u.Grounded project.root R := by
  have site := grounded.site
  cases h with
  | refused => exact ⟨.rest, grounded⟩
  | stands there => exact ⟨.found rfl there, grounded⟩
  | @written path text u missing done =>
    obtain ⟨filled, site', fits⟩ := site.write_ok descends done
    have others : ∀ s, s ≠ R ++ path.names → u.get? s = t.get? s ∨ NewDir R path.names t u s := by
      intro s hs
      rcases filled.others s hs with same | ⟨⟨p, hne, hp, hs⟩, changed⟩
      · exact Or.inl same
      · exact Or.inr ⟨⟨p, hne, hp.trans (List.dropLast_prefix _), hs⟩, changed⟩
    exact ⟨.made rfl (site.free_of_missing descends fits missing) (by simp [filled.holds]) others,
      grounded_of_made grounded site'.plain descends others⟩
  | unwritten missing done =>
    obtain ⟨grown, site'⟩ := site.write_error descends done
    have grown := grown.mono (List.dropLast_prefix _)
    exact ⟨.brokenOff rfl grown, grounded.of_grown site'.plain grown⟩
  | standsDir there => exact ⟨.found rfl there, grounded⟩
  | made missing done =>
    obtain ⟨grown, plain⟩ := (site.keeps_makeDirs descends).of_ok ⟨.refl _ _ t, site.plain⟩ done
    obtain ⟨isDir, fits, -⟩ := site.makeDirs_ok descends done
    exact ⟨.made rfl (site.free_of_missing descends fits missing) (by simp [isDir]) fun s _ => grown s,
      grounded.of_grown plain grown⟩
  | unmade missing done =>
    obtain ⟨⟨grown, plain⟩, -⟩ :=
      (site.keeps_makeDirs descends).of_error ⟨.refl _ _ t, site.plain⟩ done
    exact ⟨.brokenOff rfl grown, grounded.of_grown plain grown⟩
  | lacking missing => exact ⟨.lacking rfl missing, grounded⟩
  | unread _ _ => exact ⟨.rest, grounded⟩
  | unfit _ _ => exact ⟨.rest, grounded⟩
  | kept _ _ => exact ⟨.rest, grounded⟩
  | edited reads changed =>
    obtain rfl := site.readsAt_route descends reads
    refine ⟨.edited rfl reads.holds (advances _ _ changed), ?_⟩
    refine grounded.of_same_outside (grounded.plain.refill reads.holds) fun s outside => ?_
    rw [get?_set t reads.ne_nil, if_neg]
    rintro rfl
    exact outside ⟨R.prefix_append _, by simpa using descends.ne_nil⟩
  | absent done =>
    obtain ⟨rfl, -⟩ := remove_eq_false_iff.1 done
    exact ⟨.rest, grounded⟩
  | removed done =>
    obtain ⟨there, plain, pruned⟩ := grounded.of_remove_true descends done
    exact ⟨.removed rfl there pruned, grounded.of_pruned plain descends.ne_nil pruned⟩
  | unremoved done =>
    obtain rfl := grounded.of_remove_error descends done
    exact ⟨.rest, grounded⟩

theorem advances_any (job : Job) : job.Advances fun _ _ => True := by
  cases job with
  | edit path change => exact fun _ _ _ => trivial
  | _ => trivial

/-- The root stays grounded, whatever the outcome is. -/
theorem Outcome.grounded (h : job.Outcome project t added failure u)
    (grounded : t.Grounded project.root R) (descends : job.path.Descends job.path.names) :
    u.Grounded project.root R :=
  (h.shift grounded descends (advances_any job)).2

/-- What may become of a route by a job. -/
inductive Effect (R : Route) (t u : Tree) (job : Job) (s : Route) : Prop
  | same : u.get? s = t.get? s → Effect R t u job s
  | newDir : job.mode = .making → NewDir R job.path.names t u s → Effect R t u job s
  | made : job.mode = .making → s = R ++ job.path.names → t.get? s = none → (u.get? s).isSome →
    Effect R t u job s
  | edited {old new : Text} : job.mode = .editing → s = R ++ job.path.names →
    t.get? s = some (.file (.text old)) → u.get? s = some (.file (.text new)) → Effect R t u job s
  | removed : job.mode = .removing → R ++ job.path.names <+: s → u.get? s = none →
    Effect R t u job s

theorem Outcome.effect (h : job.Outcome project t added failure u)
    (grounded : t.Grounded project.root R) (descends : job.path.Descends job.path.names) (s : Route) :
    job.Effect R t u s := by
  obtain ⟨shift, -⟩ := h.shift grounded descends (advances_any job)
  cases shift with
  | rest => exact .same rfl
  | found _ _ => exact .same rfl
  | lacking _ _ => exact .same rfl
  | brokenOff making grown => exact (grown s).elim .same (.newDir making)
  | made making free there others =>
    by_cases here : s = R ++ job.path.names
    · subst here
      exact .made making rfl free there
    · exact (others s here).elim .same (.newDir making)
  | edited editing held _ =>
    have placed := get?_set t (r := R ++ job.path.names) (by simp [descends.ne_nil])
    by_cases here : s = R ++ job.path.names
    · subst here
      exact .edited editing rfl held (by rw [placed, if_pos rfl])
    · exact .same (by rw [placed, if_neg here])
  | removed removing _ pruned =>
    by_cases below : R ++ job.path.names <+: s
    · exact .removed removing below (by rw [pruned, if_pos below])
    · exact .same (by rw [pruned, if_neg below])

end Job

end ComponentForge

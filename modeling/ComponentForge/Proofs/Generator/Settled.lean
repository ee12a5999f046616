import ComponentForge.Proofs.Generator.Jobs

/-!
# Settled jobs

A job is settled in a tree if it finds nothing to do there. Done again it leaves the tree as it is and
records at most what exists or what is missing.
-/

namespace ComponentForge

open Access ComponentForge.Tree

/-- The change is none: something exists already, or is missing. -/
def Change.IsIdle (change : Change) : Prop :=
  change.action = .exists ∨ change.action = .missing

namespace Job

/-- The job finds nothing to do. -/
inductive Settled (project : Project) (t : Tree) : Job → Prop
  | written {path : Path} {text : Text} : project.exists? t path = true →
    Settled project t (.write path (.ok text))
  | made {path : Path} : project.exists? t path = true → Settled project t (.makeDir path)
  | lacking {path : Path} {change : Text → Except EditFault (Option Text)} :
    project.exists? t path = false → Settled project t (.edit path change)
  | kept {path : Path} {change : Text → Except EditFault (Option Text)} {r : Route}
    {content : Text} : ReadsAt t (project.root.join path) r content → change content = .ok none →
    Settled project t (.edit path change)
  | absent {path : Path} : Access.remove (project.root.join path) t = .ok false t →
    Settled project t (.remove path)

variable {project : Project} {t : Tree} {job : Job}

theorem Settled.outcome (h : job.Settled project t) :
    ∃ added, job.Outcome project t added none t ∧ ∀ change ∈ added, change.IsIdle := by
  cases h with
  | written there => exact ⟨_, .stands there, by simp [Change.IsIdle]⟩
  | made there => exact ⟨_, .standsDir there, by simp [Change.IsIdle]⟩
  | lacking missing => exact ⟨_, .lacking missing, by simp [Change.IsIdle]⟩
  | kept reads none => exact ⟨_, .kept reads none, by simp⟩
  | absent done => exact ⟨_, .absent done, by simp⟩

end Job

/-- The jobs go over the tree again as far as they get, and all stays as it is. -/
def Project.Repeats (project : Project) (jobs : List Job) (failure : Option Failure) (t : Tree) :
    Prop :=
  ∃ added, project.Performs t jobs added failure t ∧ ∀ change ∈ added, change.IsIdle

namespace Project.Repeats

variable {project : Project} {t : Tree} {job : Job} {jobs : List Job} {failure : Option Failure}

theorem nil (project : Project) (t : Tree) : project.Repeats [] none t :=
  ⟨[], .nil t, by simp⟩

theorem step (settled : job.Settled project t) (rest : project.Repeats jobs failure t) :
    project.Repeats (job :: jobs) failure t := by
  obtain ⟨added, outcome, idle⟩ := settled.outcome
  obtain ⟨later, performs, idle'⟩ := rest
  refine ⟨added ++ later, .step outcome performs, fun change mem => ?_⟩
  rcases List.mem_append.1 mem with mem | mem
  · exact idle change mem
  · exact idle' change mem

theorem of_settled (h : ∀ job ∈ jobs, job.Settled project t) : project.Repeats jobs none t := by
  induction jobs with
  | nil => exact nil project t
  | cons job jobs ih =>
    exact step (h job List.mem_cons_self) (ih fun other mem => h other (List.mem_cons_of_mem job mem))

theorem run_ok (h : project.Repeats jobs none t) (log : List Change) :
    ∃ again, (∀ change ∈ again, change.IsIdle) ∧
      project.perform jobs ⟨t, log⟩ = .ok () ⟨t, log ++ again⟩ := by
  obtain ⟨again, performs, idle⟩ := h
  exact ⟨again, idle, performs.run_eq log⟩

end Project.Repeats

end ComponentForge

import ComponentForge.Proofs.Generator.Repetition

/-!
# Stages of a run

A run that succeeds has a stage for each of its jobs, between the jobs before and the jobs after. What
every job keeps the whole run keeps, so that what a job has made is still there at the end.
-/

namespace ComponentForge

open Access ComponentForge.Tree

namespace Job

variable {project : Project} {R s : Route} {t u : Tree} {job : Job} {added : List Change}
  {failure : Option Failure}

/-- What a job records is about its path. -/
theorem Outcome.recorded {change : Change} (h : job.Outcome project t added failure u)
    (mem : change ∈ added) : job.path = change.path ∧ job.mode = change.action.mode := by
  cases h <;> simp_all [path, mode, Action.mode]

/-- A file keeps its content, if the job does not remove and does not edit this file. -/
theorem Outcome.keeps_file {content : Content} (grounded : t.Grounded project.root R)
    (descends : job.path.Descends job.path.names) (hmode : job.mode ≠ .removing)
    (other : job.mode = .editing → s ≠ R ++ job.path.names)
    (h : job.Outcome project t added failure u) (hs : t.get? s = some (.file content)) :
    u.get? s = some (.file content) := by
  cases h.effect grounded descends s with
  | same same => exact same.trans hs
  | newDir _ new =>
    obtain ⟨-, free, -⟩ := new
    rw [hs] at free
    cases free
  | made _ _ free _ =>
    rw [hs] at free
    cases free
  | edited editing here _ _ => exact absurd here (other editing)
  | removed removing _ _ => exact absurd removing hmode

end Job

namespace Project

variable {project : Project} {R : Route} {t u : Tree} {jobs : List Job} {job : Job}
  {added here : List Change} {failure : Option Failure} {change : Change}

/-- What each job keeps the run keeps, broken off or not. -/
theorem Performs.preserves {P : Tree → Prop} (h : project.Performs t jobs added failure u)
    (next : ∀ job ∈ jobs, ∀ t added failure u, job.Outcome project t added failure u → P t → P u)
    (start : P t) : P u := by
  induction h with
  | nil t => exact start
  | step outcome _ ih =>
    exact ih (fun job mem => next job (List.mem_cons_of_mem _ mem))
      (next _ List.mem_cons_self _ _ _ _ outcome start)
  | stop outcome => exact next _ List.mem_cons_self _ _ _ _ outcome start

theorem Performs.grounded (h : project.Performs t jobs added failure u)
    (descends : ∀ job ∈ jobs, job.path.Descends job.path.names)
    (start : t.Grounded project.root R) : u.Grounded project.root R :=
  h.preserves (P := fun t => t.Grounded project.root R)
    (fun job mem _ _ _ _ outcome grounded => outcome.grounded grounded (descends job mem)) start

/-- A job of a run that succeeds, with what it has recorded. -/
inductive Stage (project : Project) (t : Tree) (jobs : List Job) (job : Job) (here : List Change)
    (u : Tree) : Prop
  | between {before after : List Job} {earlier later : List Change} {mid mid' : Tree} :
    jobs = before ++ job :: after → project.Performs t before earlier none mid →
    job.Outcome project mid here none mid' → project.Performs mid' after later none u →
    Stage project t jobs job here u

theorem Stage.cons {first : Job} {mid : Tree} (outcome : first.Outcome project t added none mid)
    (h : project.Stage mid jobs job here u) : project.Stage t (first :: jobs) job here u := by
  obtain ⟨rfl, before, done, after⟩ := h
  exact .between rfl (.step outcome before) done after

/-- Every job has its stage. -/
theorem Performs.stage_of_job (h : project.Performs t jobs added failure u) (ok : failure = none)
    (mem : job ∈ jobs) : ∃ here, project.Stage t jobs job here u := by
  induction h with
  | nil t => simp at mem
  | @step t mid u first more added later failure outcome rest ih =>
    subst ok
    rcases List.mem_cons.1 mem with rfl | mem
    · exact ⟨added, .between rfl (.nil t) outcome rest⟩
    · obtain ⟨here, stage⟩ := ih rfl mem
      exact ⟨here, stage.cons outcome⟩
  | stop outcome => cases ok

/-- Every recorded change is that of a stage. -/
theorem Performs.stage_of_change (h : project.Performs t jobs added failure u) (ok : failure = none)
    (mem : change ∈ added) : ∃ job here, project.Stage t jobs job here u ∧ change ∈ here := by
  induction h with
  | nil t => simp at mem
  | @step t mid u first more added later failure outcome rest ih =>
    subst ok
    rcases List.mem_append.1 mem with mem | mem
    · exact ⟨first, added, .between rfl (.nil t) outcome rest, mem⟩
    · obtain ⟨job, here, stage, mem⟩ := ih rfl mem
      exact ⟨job, here, stage.cons outcome, mem⟩
  | stop outcome => cases ok

theorem Stage.mem (h : project.Stage t jobs job here u) : job ∈ jobs := by
  obtain ⟨rfl, -, -, -⟩ := h
  simp

theorem Stage.recorded (h : project.Stage t jobs job here u) (mem : change ∈ here) :
    job.path = change.path ∧ job.mode = change.action.mode := by
  obtain ⟨-, -, done, -⟩ := h
  exact done.recorded mem

section Making

variable (descends : ∀ job ∈ jobs, job.path.Descends job.path.names)
  (keeping : ∀ job ∈ jobs, job.mode ≠ .removing) (grounded : t.Grounded project.root R)

include descends keeping grounded

/-- What a run writes is there at its end. -/
theorem Performs.exists_written {path : Path} {text : Except Failure Text}
    (h : project.Performs t jobs added none u) (mem : .write path text ∈ jobs) :
    project.exists? u path := by
  obtain ⟨here, rfl, before, done, after⟩ := h.stage_of_job rfl mem
  rename_i jobs_before jobs_after _ _ mid mid'
  have down : path.Descends path.names := descends _ mem
  have mid_grounded := before.grounded
    (fun job mem => descends job (List.mem_append_left _ mem)) grounded
  have mid_grounded' := done.grounded mid_grounded (descends _ mem)
  have there : project.exists? mid' path := by
    cases done with
    | stands there => exact there
    | written _ done =>
      obtain ⟨filled, site, fits⟩ := mid_grounded.site.write_ok down done
      exact site.exists?_of_fits down fits (by simp [filled.holds])
  have fits := mid_grounded'.site.fits_of_exists? down there
  obtain ⟨end_grounded, occupied⟩ := after.preserves
    (P := fun t => t.Grounded project.root R ∧ (t.get? (R ++ path.names)).isSome)
    (fun job mem t added failure u outcome kept => by
      have mem : job ∈ jobs_before ++ .write path text :: jobs_after := by simp [mem]
      exact ⟨outcome.grounded kept.1 (descends job mem),
        outcome.stays kept.1 (descends job mem) (keeping job mem) kept.2⟩)
    ⟨mid_grounded', mid_grounded'.site.isSome_of_exists? down there⟩
  exact end_grounded.site.exists?_of_fits down fits occupied

/-- A file that a run has created holds its text at the end, if no edit is about it. -/
theorem Stage.read_created {path : Path} {text : Text}
    (h : project.Stage t jobs (.write path (.ok text)) here u) (mem : ⟨.create, path⟩ ∈ here)
    (unedited : ∀ job ∈ jobs, job.mode = .editing → job.path.names ≠ path.names) :
    read (project.root.join path) u = .ok text u := by
  have hjob := descends _ h.mem
  have down : path.Descends path.names := hjob
  obtain ⟨rfl, before, done, after⟩ := h
  rename_i jobs_before jobs_after _ _ mid mid'
  have mid_grounded := before.grounded
    (fun job mem => descends job (List.mem_append_left _ mem)) grounded
  have mid_grounded' := done.grounded mid_grounded hjob
  cases done with
  | stands there => simp at mem
  | written _ done =>
    obtain ⟨filled, -, fits⟩ := mid_grounded.site.write_ok down done
    obtain ⟨end_grounded, holds⟩ := after.preserves
      (P := fun t => t.Grounded project.root R ∧
        t.get? (R ++ path.names) = some (.file (.text text)))
      (fun job mem t added failure u outcome kept => by
        have mem : job ∈ jobs_before ++ .write path (.ok text) :: jobs_after := by simp [mem]
        refine ⟨outcome.grounded kept.1 (descends job mem),
          outcome.keeps_file kept.1 (descends job mem) (keeping job mem) (fun editing same => ?_)
            kept.2⟩
        exact unedited job mem editing (List.append_cancel_left same).symm)
      ⟨mid_grounded', filled.holds⟩
    exact ((end_grounded.site.readsAt_iff down fits).2 holds).read

omit keeping in
/-- A file that a run has updated has a path that fits. -/
theorem Stage.fits_updated {path : Path} {edit : Text → Except EditFault (Option Text)}
    (h : project.Stage t jobs (.edit path edit) here u) (mem : ⟨.update, path⟩ ∈ here) :
    (project.root.join path).Fits := by
  have down : path.Descends path.names := descends _ h.mem
  obtain ⟨rfl, before, done, -⟩ := h
  have mid_grounded := before.grounded
    (fun job mem => descends job (List.mem_append_left _ mem)) grounded
  cases done with
  | lacking _ => simp at mem
  | kept _ _ => simp at mem
  | edited reads _ => exact mid_grounded.site.fits_of_exists? down reads.exists?

end Making

end Project

end ComponentForge

import ComponentForge.Proofs.Generator.Session
import ComponentForge.Proofs.Generator.Spots

/-!
# Jobs

Generating and destroying work through a list of jobs, each about one path of the project. What a
job comes to depends on the tree alone and is said once for each kind of job; what a list of jobs
comes to follows. The log plays no part in this: it is only added to.
-/

namespace ComponentForge

open Access Layout

/-- A job of generating or destroying. -/
inductive Job where
  /-- Write a file where nothing stands, if its template could be filled in. -/
  | write (path : Path) (text : Except Failure Text)
  | makeDir (path : Path)
  /-- Edit an index file. The change gives another text, or none if the text can stay. -/
  | edit (path : Path) (change : Text → Except EditFault (Option Text))
  | remove (path : Path)

namespace Job

def path : Job → Path
  | write path _ => path
  | makeDir path => path
  | edit path _ => path
  | remove path => path

def run (project : Project) : Job → Run Unit
  | write path text => do
    let text ← Run.ofExcept id text
    project.writeOnce path text
  | makeDir path => project.createDir path
  | edit path change => do
    match ← project.openIndex? path with
    | none => Run.record .missing path
    | some content =>
      match ← Run.ofExcept (Failure.ofEditFault path) (change content) with
      | none => pure ()
      | some edited =>
        project.saveIndex path edited
        Run.record .update path
  | remove path => project.remove path

/-- What a job comes to: the changes that it records, its failure and the tree that it leaves. -/
inductive Outcome (project : Project) (t : Tree) :
    Job → List Change → Option Failure → Tree → Prop
  | refused {path : Path} {failure : Failure} :
    Outcome project t (.write path (.error failure)) [] (some failure) t
  | stands {path : Path} {text : Text} : project.exists? t path = true →
    Outcome project t (.write path (.ok text)) [⟨.exists, path⟩] none t
  | written {path : Path} {text : Text} {u : Tree} : project.exists? t path = false →
    Access.write (project.root.join path) text t = .ok () u →
    Outcome project t (.write path (.ok text)) [⟨.create, path⟩] none u
  | unwritten {path : Path} {text : Text} {c : Cause} {u : Tree} : project.exists? t path = false →
    Access.write (project.root.join path) text t = .error c u →
    Outcome project t (.write path (.ok text)) [] (some (.access path c)) u
  | standsDir {path : Path} : project.exists? t path = true →
    Outcome project t (.makeDir path) [⟨.exists, path⟩] none t
  | made {path : Path} {u : Tree} : project.exists? t path = false →
    makeDirs (project.root.join path) t = .ok () u →
    Outcome project t (.makeDir path) [⟨.create, path⟩] none u
  | unmade {path : Path} {c : Cause} {u : Tree} : project.exists? t path = false →
    makeDirs (project.root.join path) t = .error c u →
    Outcome project t (.makeDir path) [] (some (.access path c)) u
  | lacking {path : Path} {change : Text → Except EditFault (Option Text)} :
    project.exists? t path = false → Outcome project t (.edit path change) [⟨.missing, path⟩] none t
  | unread {path : Path} {change : Text → Except EditFault (Option Text)} {c : Cause} :
    project.exists? t path = true → read (project.root.join path) t = .error c t →
    Outcome project t (.edit path change) [] (some (.access path c)) t
  | unfit {path : Path} {change : Text → Except EditFault (Option Text)} {r : Route}
    {content : Text} {fault : EditFault} : ReadsAt t (project.root.join path) r content →
    change content = .error fault →
    Outcome project t (.edit path change) [] (some (.ofEditFault path fault)) t
  | kept {path : Path} {change : Text → Except EditFault (Option Text)} {r : Route}
    {content : Text} : ReadsAt t (project.root.join path) r content → change content = .ok none →
    Outcome project t (.edit path change) [] none t
  | edited {path : Path} {change : Text → Except EditFault (Option Text)} {r : Route}
    {content new : Text} : ReadsAt t (project.root.join path) r content →
    change content = .ok (some new) →
    Outcome project t (.edit path change) [⟨.update, path⟩] none (t.set r (.file (.text new)))
  | absent {path : Path} {u : Tree} : Access.remove (project.root.join path) t = .ok false u →
    Outcome project t (.remove path) [] none u
  | removed {path : Path} {u : Tree} : Access.remove (project.root.join path) t = .ok true u →
    Outcome project t (.remove path) [⟨.remove, path⟩] none u
  | unremoved {path : Path} {c : Cause} {u : Tree} :
    Access.remove (project.root.join path) t = .error c u →
    Outcome project t (.remove path) [] (some (.access path c)) u

end Job

namespace Run

variable {α ε : Type} {fail : ε → Failure}

theorem ofExcept_ok (a : α) (s : Session) :
    Run.ofExcept fail (.ok a : Except ε α) s = .ok a s := rfl

theorem ofExcept_error (e : ε) (s : Session) :
    Run.ofExcept fail (.error e : Except ε α) s = .error (fail e) s := rfl

end Run

/-- The session of a run that has left this tree and added these changes. -/
def Session.ended (log added : List Change) (failure : Option Failure) (u : Tree) :
    EStateM.Result Failure Session Unit :=
  match failure with
  | none => .ok () ⟨u, log ++ added⟩
  | some failure => .error failure ⟨u, log ++ added⟩

namespace Project

variable {project : Project} {path : Path} {text : Text} {t u : Tree} {c : Cause} {log : List Change}

theorem writeOnce_of_exists (h : project.exists? t path = true) :
    project.writeOnce path text ⟨t, log⟩ = .ok () ⟨t, log ++ [⟨.exists, path⟩]⟩ := by
  have there : Access.exists? t (project.root.join path) = true := h
  have skipped : Run.access path (Access.writeOnce (project.root.join path) text) ⟨t, log⟩ =
      .ok .skipped ⟨t, log⟩ := by
    rw [Run.access, Access.writeOnce_of_exists there]
  rw [writeOnce, bind_of_ok skipped]
  rfl

theorem writeOnce_of_missing (h : project.exists? t path = false) :
    project.writeOnce path text ⟨t, log⟩ =
      match Access.write (project.root.join path) text t with
      | .ok _ u => .ok () ⟨u, log ++ [⟨.create, path⟩]⟩
      | .error c u => .error (.access path c) ⟨u, log⟩ := by
  have missing : Access.exists? t (project.root.join path) = false := h
  cases written : Access.write (project.root.join path) text t with
  | ok a u =>
    have accessed : Run.access path (Access.writeOnce (project.root.join path) text) ⟨t, log⟩ =
        .ok .written ⟨u, log⟩ := by
      rw [Run.access, Access.writeOnce_of_missing missing, written]
    rw [writeOnce, bind_of_ok accessed]
    rfl
  | error c u =>
    have accessed : Run.access path (Access.writeOnce (project.root.join path) text) ⟨t, log⟩ =
        .error (.access path c) ⟨u, log⟩ := by
      rw [Run.access, Access.writeOnce_of_missing missing, written]
    rw [writeOnce, bind_of_error accessed]

theorem createDir_of_exists (h : project.exists? t path = true) :
    project.createDir path ⟨t, log⟩ = .ok () ⟨t, log ++ [⟨.exists, path⟩]⟩ := by
  rw [createDir, get_bind_run, if_pos h]
  rfl

theorem createDir_of_missing (h : project.exists? t path = false) :
    project.createDir path ⟨t, log⟩ =
      match makeDirs (project.root.join path) t with
      | .ok _ u => .ok () ⟨u, log ++ [⟨.create, path⟩]⟩
      | .error c u => .error (.access path c) ⟨u, log⟩ := by
  rw [createDir, get_bind_run]
  simp only [h, Bool.false_eq_true, if_false]
  cases made : makeDirs (project.root.join path) t with
  | ok a u =>
    have accessed : Run.access path (makeDirs (project.root.join path)) ⟨t, log⟩ =
        .ok () ⟨u, log⟩ := by rw [Run.access, made]
    rw [bind_of_ok accessed]
    rfl
  | error c u =>
    have accessed : Run.access path (makeDirs (project.root.join path)) ⟨t, log⟩ =
        .error (.access path c) ⟨u, log⟩ := by rw [Run.access, made]
    rw [bind_of_error accessed]

theorem remove_run : project.remove path ⟨t, log⟩ =
    match Access.remove (project.root.join path) t with
    | .ok removed u => .ok () ⟨u, if removed then log ++ [⟨.remove, path⟩] else log⟩
    | .error c u => .error (.access path c) ⟨u, log⟩ := by
  cases done : Access.remove (project.root.join path) t with
  | ok removed u =>
    have accessed : Run.access path (Access.remove (project.root.join path)) ⟨t, log⟩ =
        .ok removed ⟨u, log⟩ := by rw [Run.access, done]
    rw [remove, bind_of_ok accessed]
    cases removed <;> rfl
  | error c u =>
    have accessed : Run.access path (Access.remove (project.root.join path)) ⟨t, log⟩ =
        .error (.access path c) ⟨u, log⟩ := by rw [Run.access, done]
    rw [remove, bind_of_error accessed]

theorem openIndex?_of_missing (h : project.exists? t path = false) :
    project.openIndex? path ⟨t, log⟩ = .ok none ⟨t, log⟩ := by
  rw [openIndex?, get_bind_run]
  simp only [h, Bool.false_eq_true, if_false]
  rfl

theorem openIndex?_of_unread (there : project.exists? t path = true)
    (h : read (project.root.join path) t = .error c t) :
    project.openIndex? path ⟨t, log⟩ = .error (.access path c) ⟨t, log⟩ := by
  have accessed : Run.access path (read (project.root.join path)) ⟨t, log⟩ =
      .error (.access path c) ⟨t, log⟩ := by rw [Run.access, h]
  rw [openIndex?, get_bind_run]
  simp only [there, if_true]
  rw [bind_of_error accessed]

end Project

namespace Job

variable {project : Project} {t u : Tree} {job : Job} {added : List Change}
  {failure : Option Failure}

/-- A job runs to its outcome whatever the log. -/
theorem Outcome.run_eq (h : Outcome project t job added failure u) (log : List Change) :
    job.run project ⟨t, log⟩ = Session.ended log added failure u := by
  cases h with
  | refused =>
    rw [run, bind_of_error (Run.ofExcept_error _ _)]
    simp [Session.ended]
  | stands there =>
    rw [run, bind_of_ok (Run.ofExcept_ok _ _), Project.writeOnce_of_exists there]
    rfl
  | written missing done =>
    rw [run, bind_of_ok (Run.ofExcept_ok _ _), Project.writeOnce_of_missing missing, done]
    rfl
  | unwritten missing done =>
    rw [run, bind_of_ok (Run.ofExcept_ok _ _), Project.writeOnce_of_missing missing, done]
    simp [Session.ended]
  | standsDir there =>
    rw [run, Project.createDir_of_exists there]
    rfl
  | made missing done =>
    rw [run, Project.createDir_of_missing missing, done]
    rfl
  | unmade missing done =>
    rw [run, Project.createDir_of_missing missing, done]
    simp [Session.ended]
  | lacking missing =>
    rw [run, bind_of_ok (Project.openIndex?_of_missing missing)]
    rfl
  | unread there unread =>
    rw [run, bind_of_error (Project.openIndex?_of_unread there unread)]
    simp [Session.ended]
  | unfit reads fault =>
    rw [run, bind_of_ok (Project.openIndex?_of_readsAt reads)]
    simp only [fault]
    rw [bind_of_error (Run.ofExcept_error _ _)]
    simp [Session.ended]
  | kept reads none =>
    rw [run, bind_of_ok (Project.openIndex?_of_readsAt reads)]
    simp only [none]
    rw [bind_of_ok (Run.ofExcept_ok _ _)]
    simp [Session.ended, pure_run]
  | edited reads new =>
    rw [run, bind_of_ok (Project.openIndex?_of_readsAt reads)]
    simp only [new]
    rw [bind_of_ok (Run.ofExcept_ok _ _)]
    simp only
    rw [bind_of_ok (Project.saveIndex_of_readsAt reads _)]
    rfl
  | absent done =>
    rw [run, Project.remove_run, done]
    simp [Session.ended]
  | removed done =>
    rw [run, Project.remove_run, done]
    rfl
  | unremoved done =>
    rw [run, Project.remove_run, done]
    simp [Session.ended]

/-- Every job has an outcome. -/
theorem exists_outcome (project : Project) (t : Tree) (job : Job) :
    ∃ added failure u, Outcome project t job added failure u := by
  cases job with
  | write path text =>
    cases text with
    | error failure => exact ⟨_, _, _, .refused⟩
    | ok text =>
      cases there : project.exists? t path with
      | true => exact ⟨_, _, _, .stands there⟩
      | false =>
        cases done : Access.write (project.root.join path) text t with
        | ok a u => exact ⟨_, _, _, .written there done⟩
        | error c u => exact ⟨_, _, _, .unwritten there done⟩
  | makeDir path =>
    cases there : project.exists? t path with
    | true => exact ⟨_, _, _, .standsDir there⟩
    | false =>
      cases done : makeDirs (project.root.join path) t with
      | ok a u => exact ⟨_, _, _, .made there done⟩
      | error c u => exact ⟨_, _, _, .unmade there done⟩
  | edit path change =>
    cases there : project.exists? t path with
    | false => exact ⟨_, _, _, .lacking there⟩
    | true =>
      cases done : read (project.root.join path) t with
      | error c u =>
        obtain rfl := ofExcept_error done
        exact ⟨_, _, _, .unread there done⟩
      | ok content u =>
        obtain ⟨rfl, r, reads⟩ := readsAt_of_read done
        cases changed : change content with
        | error fault => exact ⟨_, _, _, .unfit reads changed⟩
        | ok edited? =>
          cases edited? with
          | none => exact ⟨_, _, _, .kept reads changed⟩
          | some new => exact ⟨_, _, _, .edited reads changed⟩
  | remove path =>
    cases done : Access.remove (project.root.join path) t with
    | error c u => exact ⟨_, _, _, .unremoved done⟩
    | ok removed u =>
      cases removed with
      | true => exact ⟨_, _, _, .removed done⟩
      | false => exact ⟨_, _, _, .absent done⟩

/-- A job that succeeds has an outcome without a failure. -/
theorem outcome_of_ok {s v : Session} (h : job.run project s = .ok () v) :
    ∃ added u, job.Outcome project s.tree added none u ∧ v = ⟨u, s.log ++ added⟩ := by
  obtain ⟨added, failure, u, outcome⟩ := job.exists_outcome project s.tree
  rw [outcome.run_eq s.log] at h
  cases failure with
  | some failure => cases h
  | none => exact ⟨added, u, outcome, (EStateM.Result.ok.inj h).2.symm⟩

end Job

namespace Project

/-- Work through the jobs up to the first that fails. -/
def perform (project : Project) : List Job → Run Unit
  | [] => pure ()
  | job :: more => do
    job.run project
    project.perform more

variable {project : Project} {t u : Tree} {jobs more : List Job} {added : List Change}
  {failure : Option Failure}

theorem perform_append (project : Project) (jobs more : List Job) :
    project.perform (jobs ++ more) = (do project.perform jobs; project.perform more) := by
  induction jobs with
  | nil => rfl
  | cons job rest ih => simp [perform, ih]

theorem perform_cons_eq_ok_iff {job : Job} {s v : Session} :
    project.perform (job :: more) s = .ok () v ↔
      ∃ u, job.run project s = .ok () u ∧ project.perform more u = .ok () v := by
  rw [perform, bind_eq_ok_iff]
  exact ⟨fun ⟨_, ends⟩ => ends, fun ends => ⟨(), ends⟩⟩

theorem perform_append_eq_ok_iff {s v : Session} : project.perform (jobs ++ more) s = .ok () v ↔
    ∃ u, project.perform jobs s = .ok () u ∧ project.perform more u = .ok () v := by
  rw [perform_append, bind_eq_ok_iff]
  exact ⟨fun ⟨_, ends⟩ => ends, fun ends => ⟨(), ends⟩⟩

theorem perform_singleton (project : Project) (job : Job) : project.perform [job] = job.run project :=
  bind_pure_unit

/-- The jobs in turn, with the changes that they record, up to the first that fails. -/
inductive Performs (project : Project) :
    Tree → List Job → List Change → Option Failure → Tree → Prop
  | nil (t : Tree) : Performs project t [] [] none t
  | step {t u v : Tree} {job : Job} {more : List Job} {added later : List Change}
    {failure : Option Failure} : job.Outcome project t added none u →
    Performs project u more later failure v →
    Performs project t (job :: more) (added ++ later) failure v
  | stop {t u : Tree} {job : Job} {more : List Job} {added : List Change} {failure : Failure} :
    job.Outcome project t added (some failure) u →
    Performs project t (job :: more) added (some failure) u

theorem Performs.run_eq (h : project.Performs t jobs added failure u) (log : List Change) :
    project.perform jobs ⟨t, log⟩ = Session.ended log added failure u := by
  induction h generalizing log with
  | nil t =>
    rw [perform, pure_run]
    simp [Session.ended]
  | @step t u v job more added later failure outcome _ ih =>
    rw [perform, bind_of_ok (outcome.run_eq log), ih]
    cases failure <;> simp [Session.ended]
  | stop outcome =>
    rw [perform, bind_of_error (outcome.run_eq log)]
    rfl

theorem exists_performs (project : Project) (t : Tree) (jobs : List Job) :
    ∃ added failure u, project.Performs t jobs added failure u := by
  induction jobs generalizing t with
  | nil => exact ⟨_, _, _, .nil t⟩
  | cons job more ih =>
    obtain ⟨added, failure, u, outcome⟩ := job.exists_outcome project t
    cases failure with
    | some failure => exact ⟨_, _, _, .stop outcome⟩
    | none =>
      obtain ⟨later, failure, v, rest⟩ := ih u
      exact ⟨_, _, _, .step outcome rest⟩

theorem performs_of_ok {log : List Change} {s : Session}
    (h : project.perform jobs ⟨t, log⟩ = .ok () s) :
    ∃ added, project.Performs t jobs added none s.tree := by
  obtain ⟨added, failure, u, performs⟩ := project.exists_performs t jobs
  rw [performs.run_eq] at h
  cases failure with
  | some failure => cases h
  | none =>
    obtain rfl := (EStateM.Result.ok.inj h).2
    exact ⟨added, performs⟩

end Project

end ComponentForge

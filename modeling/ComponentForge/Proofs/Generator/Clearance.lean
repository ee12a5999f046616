import ComponentForge.Proofs.Generator.PlanOrder
import ComponentForge.Proofs.Generator.Settled
import ComponentForge.Proofs.Tree.Fading

/-!
# Jobs that clear away

Removals and withdrawals of patches only take away. So a removal that is done stays done, and a patch
that its index file has listed once is out of it for good after the withdrawal. The paths of the jobs
need not go down from the project root: all of them lead through one base, the modules root, which
they leave where it is.
-/

namespace ComponentForge

open Access Index ComponentForge.Tree

theorem Access.text_eq_of_read {t : Tree} {path : Path} {r : Route} {text content : Text}
    (h : ReadsAt t path r text) (hread : read path t = .ok content t) : text = content :=
  (EStateM.Result.ok.inj (h.read.symm.trans hread)).1

/-- The path leads from the base down along the names. -/
def Path.Below (base : Path) (q : Route) (path : Path) : Prop :=
  ∃ rel, path = base.join rel ∧ rel.Descends q

namespace Job

/-- The job is there to remove something, or to withdraw a patch that its file lists once at most. -/
inductive Pending (project : Project) (t : Tree) : Job → Prop
  | remove {path : Path} : Pending project t (.remove path)
  | withdraw {path : Path} {patch : IndexPatch} : patch.Regular →
    (∀ content, read (project.root.join path) t = .ok content t → patch.Once content) →
    Pending project t (.edit path patch.revert?)

/-- Nothing is left of what the job is there to take away. -/
inductive Cleared (project : Project) (t : Tree) : Job → Prop
  | remove {path : Path} : find (project.root.join path) t = .error .notFound t →
    Cleared project t (.remove path)
  | withdraw {path : Path} {patch : IndexPatch} : patch.Regular →
    (project.exists? t path → ∃ content, read (project.root.join path) t = .ok content t) →
    (∀ content, read (project.root.join path) t = .ok content t → patch.Gone content) →
    Cleared project t (.edit path patch.revert?)

variable {project : Project} {base : Path} {R q : Route} {keep : List Route} {t u : Tree} {job : Job}
  {added : List Change}

theorem Cleared.settled (h : job.Cleared project t) : job.Settled project t := by
  cases h with
  | remove missing => exact .absent (remove_eq_false_iff.2 ⟨rfl, missing⟩)
  | @withdraw path patch regular legible gone =>
    cases there : project.exists? t path with
    | false => exact .lacking there
    | true =>
      obtain ⟨content, hread⟩ := legible there
      obtain ⟨-, r, reads⟩ := readsAt_of_read hread
      exact .kept reads ((gone content hread).revert? regular)

/-- A job that is done has taken away what it is there for. -/
theorem Outcome.cleared (below : base.Below q (project.root.join job.path))
    (pending : job.Pending project t) (h : job.Outcome project t added none u) :
    job.Cleared project u := by
  obtain ⟨rel, same, down⟩ := below
  cases pending with
  | @remove path =>
    have same : project.root.join path = base.join rel := same
    have named := same ▸ namesEntry_join base down
    cases h with
    | absent done => exact .remove (missing_of_remove named done)
    | removed done => exact .remove (missing_of_remove named done)
  | withdraw regular once =>
    cases h with
    | lacking missing =>
      refine .withdraw regular (fun there => absurd there (by simp [missing])) fun content hread => ?_
      obtain ⟨-, r, reads⟩ := readsAt_of_read hread
      exact absurd reads.exists? (by rw [show Access.exists? t _ = false from missing]; simp)
    | kept reads none =>
      refine .withdraw regular (fun _ => ⟨_, reads.read⟩) fun content hread => ?_
      obtain rfl := text_eq_of_read reads hread
      exact (once _ reads.read).gone regular none
    | @edited path change r old new reads turned =>
      have now := reads.set new
      refine .withdraw regular (fun _ => ⟨_, now.read⟩) fun content hread => ?_
      obtain rfl := text_eq_of_read now hread
      exact (IndexPatch.withdrawn_of_revert? regular turned).gone regular (once _ reads.read)

/-- A job that clears away does nothing, or takes away what stands at a route and below, away from the
routes that are kept, or leaves less of the text of a file. -/
inductive Clears (keep : List Route) (t : Tree) : Tree → Prop
  | rest : Clears keep t t
  | removed {u : Tree} {r : Route} : u.Plain → Shrunk r t u → (∀ s ∈ keep, ¬ r <+: s) →
    Clears keep t u
  | withdrawn {patch : IndexPatch} {r : Route} {old new : Text} :
    t.get? r = some (.file (.text old)) → patch.Withdrawn old new →
    Clears keep t (t.set r (.file (.text new)))

theorem Outcome.clears (site : t.Site base R) (below : base.Below q (project.root.join job.path))
    (aside : job.mode = .removing → ∀ s ∈ keep, ¬ R ++ q <+: s) (pending : job.Pending project t)
    (h : job.Outcome project t added none u) : Clears keep t u := by
  obtain ⟨rel, same, down⟩ := below
  cases pending with
  | @remove path =>
    have same : project.root.join path = base.join rel := same
    have done : ∀ {removed : Bool}, Access.remove (project.root.join path) t = .ok removed u →
        Clears keep t u := by
      intro removed done
      rw [same] at done
      obtain ⟨shrunk, plain⟩ := site.after_remove down
      rw [after_of_ok done] at shrunk plain
      exact .removed plain shrunk (aside rfl)
    cases h with
    | absent gone => exact done gone
    | removed gone => exact done gone
  | withdraw regular _ =>
    cases h with
    | lacking _ => exact .rest
    | kept _ _ => exact .rest
    | edited reads turned =>
      exact .withdrawn reads.holds (IndexPatch.withdrawn_of_revert? regular turned)

namespace Clears

variable {s : Route} {path : Path} {new content : Text} {P : Text → Prop}

theorem plain (h : Clears keep t u) (plain : t.Plain) : u.Plain := by
  cases h with
  | rest => exact plain
  | removed plain' _ _ => exact plain'
  | withdrawn hold _ => exact plain.refill hold

theorem fades (h : Clears keep t u) : Fades t u := by
  cases h with
  | rest => exact .refl t
  | removed _ shrunk _ => exact .of_shrunk shrunk
  | withdrawn hold _ => exact .of_refill hold _

/-- What is to be kept is still there. -/
theorem stays (h : Clears keep t u) (hs : s ∈ keep) (there : (t.get? s).isSome) :
    (u.get? s).isSome := by
  cases h with
  | rest => exact there
  | removed _ shrunk aside =>
    rcases shrunk s with same | ⟨below, -⟩
    · exact same ▸ there
    · exact absurd below (aside s hs)
  | @withdrawn patch r old new hold _ =>
    have hr : r ≠ [] := by
      rintro rfl
      simp [get?] at hold
    rw [get?_set t hr]
    split
    · rfl
    · exact there

/-- The base is where it was if the way to it is kept. -/
theorem site (h : Clears keep t u) (site : t.Site base R) (way : along [] base.steps ⊆ keep) :
    u.Site base R := by
  refine ⟨h.plain site.plain, site.passes.of_along fun s hs dir => ?_⟩
  rcases h.fades.dir_or_none dir with still | gone
  · exact still
  · have there := h.stays (way hs) (by simp [dir])
    simp [gone] at there

/-- The text of a file is the one from before, or what a withdrawal has left of it. -/
theorem text_cases (h : Clears keep t u) (hnew : u.get? s = some (.file (.text new))) :
    t.get? s = some (.file (.text new)) ∨
      ∃ (patch : IndexPatch) (old : Text),
        t.get? s = some (.file (.text old)) ∧ patch.Withdrawn old new := by
  cases h with
  | rest => exact Or.inl hnew
  | removed _ shrunk _ =>
    rcases shrunk s with same | ⟨-, gone⟩
    · exact Or.inl (same ▸ hnew)
    · simp [gone] at hnew
  | @withdrawn patch r old left hold withdrawn =>
    have hr : r ≠ [] := by
      rintro rfl
      simp [get?] at hold
    rw [get?_set t hr] at hnew
    by_cases here : s = r
    · subst here
      obtain rfl : left = new := by simpa using hnew
      exact Or.inr ⟨patch, old, hold, withdrawn⟩
    · exact Or.inl (by rwa [if_neg here] at hnew)

/-- What holds of a text that is read, and of all that a loss may leave of it, holds of the text that
is read afterwards. -/
theorem reads (h : Clears keep t u) (site : t.Site base R) (site' : u.Site base R)
    (below : base.Below q path)
    (on_loss : ∀ pattern text left, Loses pattern text left → P text → P left)
    (before : ∀ content, read path t = .ok content t → P content)
    (hread : read path u = .ok content u) : P content := by
  obtain ⟨rel, rfl, down⟩ := below
  obtain ⟨-, reads, fits⟩ := site'.of_read down hread
  have earlier : ∀ text, t.get? (R ++ q) = some (.file (.text text)) → P text := fun text holds =>
    before text ((site.readsAt_iff down fits).2 holds).read
  rcases h.text_cases reads.holds with same | ⟨patch, old, hold, withdrawn⟩
  · exact earlier _ same
  · exact withdrawn.preserves on_loss (earlier old hold)

/-- A file of text is one as long as something stands there. -/
theorem legible (h : Clears keep t u) (site : t.Site base R) (site' : u.Site base R)
    (below : base.Below q path)
    (before : Access.exists? t path → ∃ content, read path t = .ok content t)
    (there : Access.exists? u path) : ∃ content, read path u = .ok content u := by
  obtain ⟨rel, rfl, down⟩ := below
  have fits := site'.fits_of_exists? down there
  have occupied := site'.isSome_of_exists? down there
  obtain ⟨content, hread⟩ := before (site.exists?_of_fits down fits (h.fades.isSome occupied))
  obtain ⟨-, reads, -⟩ := site.of_read down hread
  have text : ∃ new, u.get? (R ++ q) = some (.file (.text new)) := by
    rcases h.fades (R ++ q) with same | gone | ⟨old, new, -, hnew⟩
    · exact ⟨content, same.trans reads.holds⟩
    · simp [gone] at occupied
    · exact ⟨new, hnew⟩
  obtain ⟨new, hnew⟩ := text
  exact ⟨new, ((site'.readsAt_iff down fits).2 hnew).read⟩

end Clears

/-- A job that is still to be done stays so while another one is. -/
theorem Pending.next (site : t.Site base R) (site' : u.Site base R) (clears : Clears keep t u)
    (below : base.Below q (project.root.join job.path)) (h : job.Pending project t) :
    job.Pending project u := by
  cases h with
  | remove => exact .remove
  | withdraw regular once =>
    exact .withdraw regular fun content hread => clears.reads site site' below
      (fun _ _ _ loses => IndexPatch.Once.of_loses regular loses) once hread

/-- What is cleared away stays so. -/
theorem Cleared.next (site : t.Site base R) (site' : u.Site base R) (clears : Clears keep t u)
    (below : base.Below q (project.root.join job.path)) (h : job.Cleared project t) :
    job.Cleared project u := by
  cases h with
  | @remove path missing =>
    exact .remove (missing_fades clears.fades missing)
  | @withdraw path patch regular legible gone =>
    exact .withdraw regular (fun there => clears.legible site site' below legible there)
      fun content hread => clears.reads site site' below
        (fun _ _ _ loses => IndexPatch.Gone.of_loses regular loses) gone hread

end Job

/-- Jobs that clear away below the base, all of them to be done, with the removals away from the routes
that are kept. -/
structure Clearing (project : Project) (base : Path) (R : Route) (keep : List Route) (t : Tree)
    (jobs : List Job) : Prop where
  way : along [] base.steps ⊆ keep
  pending : ∀ job ∈ jobs, job.Pending project t
  aside : ∀ job ∈ jobs, ∃ q, base.Below q (project.root.join job.path) ∧
    (job.mode = .removing → ∀ s ∈ keep, ¬ R ++ q <+: s)

namespace Clearing

variable {project : Project} {base : Path} {R : Route} {keep : List Route} {t u : Tree} {job : Job}
  {jobs : List Job} {added : List Change}

theorem first (h : Clearing project base R keep t (job :: jobs)) (site : t.Site base R)
    (outcome : job.Outcome project t added none u) : ∃ q,
      base.Below q (project.root.join job.path) ∧ Job.Clears keep t u ∧ job.Cleared project u := by
  obtain ⟨q, below, aside⟩ := h.aside job List.mem_cons_self
  have pending := h.pending job List.mem_cons_self
  exact ⟨q, below, outcome.clears site below aside pending, outcome.cleared below pending⟩

/-- The other jobs are still to be done afterwards. -/
theorem tail (h : Clearing project base R keep t (job :: jobs)) (site : t.Site base R)
    (clears : Job.Clears keep t u) : Clearing project base R keep u jobs where
  way := h.way
  pending other mem := by
    obtain ⟨q, below, -⟩ := h.aside other (List.mem_cons_of_mem _ mem)
    exact (h.pending other (List.mem_cons_of_mem _ mem)).next site (clears.site site h.way) clears below
  aside other mem := h.aside other (List.mem_cons_of_mem _ mem)

/-- What is cleared away before the jobs is so after them. -/
theorem cleared_run {q : Route} (h : Clearing project base R keep t jobs) (site : t.Site base R)
    (below : base.Below q (project.root.join job.path)) (cleared : job.Cleared project t)
    (performs : project.Performs t jobs added none u) : job.Cleared project u := by
  generalize hfailure : (none : Option Failure) = failure at performs
  induction performs with
  | nil t => exact cleared
  | step outcome _ ih =>
    subst hfailure
    obtain ⟨-, -, clears, -⟩ := h.first site outcome
    have site' := clears.site site h.way
    exact ih (h.tail site clears) site' (cleared.next site site' clears below) rfl
  | stop _ => cases hfailure

/-- After the jobs all of them are cleared away, and what is to be kept stands. -/
theorem run (h : Clearing project base R keep t jobs) (site : t.Site base R)
    (performs : project.Performs t jobs added none u) : u.Site base R ∧
      (∀ job ∈ jobs, job.Cleared project u) ∧ ∀ s ∈ keep, (t.get? s).isSome → (u.get? s).isSome := by
  generalize hfailure : (none : Option Failure) = failure at performs
  induction performs with
  | nil t => exact ⟨site, by simp, fun _ _ hs => hs⟩
  | @step t mid u job more added later failure outcome performs ih =>
    subst hfailure
    obtain ⟨q, below, clears, cleared⟩ := h.first site outcome
    have site' := clears.site site h.way
    have rest := h.tail site clears
    -- The others do not bring back what this job has cleared away.
    obtain ⟨site'', all, keeps⟩ := ih rest site' rfl
    have still := rest.cleared_run site' below cleared performs
    exact ⟨site'', List.forall_mem_cons.2 ⟨still, all⟩,
      fun s hs there => keeps s hs (clears.stays hs there)⟩
  | stop _ => cases hfailure

end Clearing

end ComponentForge

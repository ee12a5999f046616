import ComponentForge.Proofs.Generator.Confinement
import ComponentForge.Proofs.Generator.Settled

/-!
# Generating again

What a job of generating has done it finds done in every tree that the later jobs leave, so that the
same call changes nothing more, and fails as before if it has failed. For the entries of an index file
this needs that no import statement stands in the export zone: an import line that is put in after one
there would move the zone apart.
-/

namespace ComponentForge

open Access Index Layout ComponentForge.Tree

namespace IndexPatch

variable {patch other : IndexPatch} {old new : Text}

/-- A text that the patch has extended, and one that it leaves as it is, list the patch. -/
theorem Regular.extended (regular : patch.Regular) (free : patch.exportEntry.isSome → ImportFree old)
    (h : patch.extend? old = .ok (some new)) :
    patch.extend? new = .ok none ∧ (ImportFree old → ImportFree new) := by
  have adds := adds_of_apply regular (apply_of_extend? h)
  exact ⟨extend?_eq_none_iff.2 (apply_of_listedIn regular (adds.self_listedIn regular free)),
    adds.importFree regular⟩

/-- A patch that is listed stays listed when another one is added. -/
theorem Regular.still_extended (regular : patch.Regular) (regular' : other.Regular)
    (free : patch.exportEntry.isSome ∨ other.exportEntry.isSome → ImportFree old)
    (settled : patch.extend? old = .ok none) (h : other.extend? old = .ok (some new)) :
    patch.extend? new = .ok none := by
  have same := adds_of_apply regular (extend?_eq_none_iff.1 settled)
  have listed := same.self_listedIn regular fun some => free (Or.inl some)
  have adds := adds_of_apply regular' (apply_of_extend? h)
  have still := adds.listedIn regular' regular (fun some => free (Or.inr some)) listed
  exact extend?_eq_none_iff.2 (apply_of_listedIn regular still)

end IndexPatch

namespace Job

variable {project : Project} {index : Option Path} {q : List Text} {R s : Route} {t u : Tree}
  {job other : Job} {added : List Change} {failure : Option Failure}

/-- The job makes something or adds a patch, with an entry to the index only, if there is one. -/
inductive Builds (index : Option Path) : Job → Prop
  | write {path : Path} {text : Except Failure Text} : Builds index (.write path text)
  | makeDir {path : Path} : Builds index (.makeDir path)
  | extend {path : Path} {patch : IndexPatch} : patch.Regular →
    (patch.exportEntry.isSome → path ∈ index) → Builds index (.edit path patch.extend?)

theorem Builds.mode (h : job.Builds index) : job.mode ≠ .removing := by
  cases h <;> simp [Job.mode]

/-- What stands is not taken away by a job that does not remove. -/
theorem Outcome.stays (grounded : t.Grounded project.root R)
    (descends : job.path.Descends job.path.names) (hmode : job.mode ≠ .removing)
    (h : job.Outcome project t added failure u) (hs : (t.get? s).isSome) : (u.get? s).isSome := by
  cases h.effect grounded descends s with
  | same same => rwa [same]
  | newDir _ new => simp [new.2.2]
  | made _ _ _ there => exact there
  | edited _ _ _ file => simp [file]
  | removed removing _ _ => exact absurd removing hmode

/-- A making job leaves a route alone that is not on the way to what it makes. -/
theorem Outcome.get?_of_making (grounded : t.Grounded project.root R)
    (descends : job.path.Descends job.path.names) (making : job.mode = .making)
    (aside : ¬ q <+: job.path.names) (h : job.Outcome project t added failure u) :
    u.get? (R ++ q) = t.get? (R ++ q) := by
  cases h.effect grounded descends (R ++ q) with
  | same same => exact same
  | newDir _ new =>
    obtain ⟨⟨p, -, hp, same⟩, -⟩ := new
    exact absurd (List.append_cancel_left same ▸ hp) aside
  | made _ here _ _ => exact absurd (List.append_cancel_left here ▸ List.prefix_refl _) aside
  | edited editing _ _ _ => simp [making] at editing
  | removed removing _ _ => simp [making] at removing

/-- An edit leaves the tree as it is, or it puts the edited text in the place of the one it has read. -/
theorem Outcome.edit_cases {path : Path} {change : Text → Except EditFault (Option Text)}
    (grounded : t.Grounded project.root R) (descends : path.Descends path.names)
    (h : (Job.edit path change).Outcome project t added failure u) : u = t ∨ ∃ old new,
      ReadsAt t (project.root.join path) (R ++ path.names) old ∧ change old = .ok (some new) ∧
        u = t.set (R ++ path.names) (.file (.text new)) := by
  cases h with
  | edited reads turned =>
    obtain rfl := grounded.site.readsAt_route descends reads
    exact Or.inr ⟨_, _, reads, turned, rfl⟩
  | _ => exact Or.inl rfl

/-- What is made is not the file of an edit, nor below it. -/
theorem Apart.not_prefix (apart : job.Apart other ∨ other.Apart job) (editing : job.mode = .editing)
    (making : other.mode = .making) : ¬ job.path.names <+: other.path.names := by
  rcases apart with (⟨-, editing'⟩ | ⟨-, below⟩) | (⟨editing', -⟩ | ⟨above, -⟩)
  · simp [making] at editing'
  · exact below (by simp [editing])
  · simp [making] at editing'
  · exact above

end Job

/-- No import statement stands in the export zone of the index, if it can be read. -/
def Project.IndexFree (project : Project) (index : Option Path) (t : Tree) : Prop :=
  ∀ path ∈ index, ∀ content, read (project.root.join path) t = .ok content t → ImportFree content

namespace Job

variable {project : Project} {index : Option Path} {q : List Text} {R s : Route} {t u : Tree}
  {job other : Job} {added : List Change} {failure : Option Failure}

/-- What an editing job finds at its route a later job that builds leaves, or it extends the text. -/
theorem Outcome.at_edited (grounded : t.Grounded project.root R) (editing : job.mode = .editing)
    (apart : job.Apart other ∨ other.Apart job) (builds : other.Builds index)
    (descends : other.path.Descends other.path.names)
    (h : other.Outcome project t added failure u) :
    u.get? (R ++ job.path.names) = t.get? (R ++ job.path.names) ∨
      ∃ (patch : IndexPatch) (old new : Text), patch.Regular ∧
        (patch.exportEntry.isSome → other.path ∈ index) ∧ other.path.names = job.path.names ∧
        ReadsAt t (project.root.join other.path) (R ++ job.path.names) old ∧
        patch.extend? old = .ok (some new) ∧
        u.get? (R ++ job.path.names) = some (.file (.text new)) := by
  have made : other.mode = .making →
      u.get? (R ++ job.path.names) = t.get? (R ++ job.path.names) := fun making =>
    h.get?_of_making grounded descends making (Apart.not_prefix apart editing making)
  cases builds with
  | write => exact Or.inl (made rfl)
  | makeDir => exact Or.inl (made rfl)
  | @extend path patch regular listed =>
    have descends : path.Descends path.names := descends
    rcases h.edit_cases grounded descends with rfl | ⟨old, new, reads, turned, rfl⟩
    · exact Or.inl rfl
    · rw [get?_set t reads.ne_nil]
      by_cases here : R ++ job.path.names = R ++ path.names
      · have names := List.append_cancel_left here
        rw [if_pos here]
        exact Or.inr ⟨patch, old, new, regular, listed, names.symm, names ▸ reads, turned, rfl⟩
      · exact Or.inl (if_neg here)

/-- A job that is settled stays so when a later one that builds is done. -/
theorem Settled.next (grounded : t.Grounded project.root R) (free : project.IndexFree index t)
    (settled : job.Settled project t) (builds : job.Builds index) (builds' : other.Builds index)
    (descends : job.path.Descends job.path.names) (descends' : other.path.Descends other.path.names)
    (apart : job.Apart other) (h : other.Outcome project t added failure u) :
    job.Settled project u := by
  have grounded' := h.grounded grounded descends'
  have found : project.exists? t job.path = true → project.exists? u job.path = true := by
    intro there
    have occupied := grounded.site.isSome_of_exists? descends there
    exact grounded'.site.exists?_of_fits descends (grounded.site.fits_of_exists? descends there)
      (h.stays grounded descends' builds'.mode occupied)
  cases settled with
  | written there => exact .written (found there)
  | made there => exact .made (found there)
  | @lacking path change missing =>
    refine .lacking (Eq.trans ?_ missing)
    refine grounded.site.exists?_congr grounded'.site descends ?_
    rcases h.at_edited grounded rfl (Or.inl apart) builds' descends' with
      same | ⟨patch, old, new, -, -, -, reads, -, now⟩
    · exact congrArg Option.isSome same
    · rw [now, reads.holds]
      rfl
  | @kept path change r content reads none =>
    obtain rfl := grounded.site.readsAt_route descends reads
    have fits := grounded.site.fits_of_exists? descends reads.exists?
    rcases h.at_edited grounded rfl (Or.inl apart) builds' descends' with
      same | ⟨other_patch, old, new, regular', listed', -, reads', turned, now⟩
    · exact .kept ((grounded'.site.readsAt_iff descends fits).2 (same.trans reads.holds)) none
    · obtain rfl : old = content := by simpa [reads'.holds] using reads.holds
      refine .kept ((grounded'.site.readsAt_iff descends fits).2 now) ?_
      cases builds with
      | @extend _ patch regular listed =>
        refine regular.still_extended regular' (fun some => ?_) none turned
        rcases some with some | some
        · exact free path (listed some) _ reads.read
        · exact free other.path (listed' some) _ reads'.read
  | absent _ => exact absurd rfl builds.mode

/-- A job that is done is settled. -/
theorem Outcome.settled (grounded : t.Grounded project.root R) (free : project.IndexFree index t)
    (builds : job.Builds index) (descends : job.path.Descends job.path.names)
    (h : job.Outcome project t added none u) : job.Settled project u := by
  cases h with
  | stands there => exact .written there
  | written _ done =>
    obtain ⟨filled, site, fits⟩ := grounded.site.write_ok descends done
    exact .written (site.exists?_of_fits descends fits (by simp [filled.holds]))
  | standsDir there => exact .made there
  | made _ done =>
    obtain ⟨grown, plain⟩ :=
      (grounded.site.keeps_makeDirs descends).of_ok ⟨.refl _ _ t, grounded.plain⟩ done
    obtain ⟨isDir, fits, -⟩ := grounded.site.makeDirs_ok descends done
    exact .made ((grounded.site.of_grown plain grown).exists?_of_fits descends fits (by simp [isDir]))
  | lacking missing => exact .lacking missing
  | kept reads none => exact .kept reads none
  | @edited path change r old new reads turned =>
    cases builds with
    | extend regular listed =>
      have settled := (regular.extended (fun some => free path (listed some) _ reads.read) turned).1
      exact .kept (reads.set _) settled
  | absent _ => exact absurd rfl builds.mode
  | removed _ => exact absurd rfl builds.mode

/-- A job that has failed fails again, on the tree that it has left. -/
theorem Outcome.fails_again {failure : Failure} (grounded : t.Grounded project.root R)
    (builds : job.Builds index) (descends : job.path.Descends job.path.names)
    (h : job.Outcome project t added (some failure) u) :
    job.Outcome project u [] (some failure) u := by
  have site := grounded.site
  cases h with
  | refused => exact .refused
  | @unwritten path text c u missing done =>
    obtain ⟨grown, site'⟩ := site.write_error descends done
    have untouched : u.get? (R ++ path.names) = t.get? (R ++ path.names) := by
      refine (grown _).resolve_right ?_
      rintro ⟨⟨p, hne, hp, same⟩, -⟩
      obtain rfl := List.append_cancel_left same
      have shorter : path.names.length ≤ path.names.dropLast.length := hp.length_le
      have pos : 0 < path.names.length := List.length_pos_iff.2 hne
      rw [List.length_dropLast] at shorter
      omega
    have missing' : project.exists? u path = false :=
      (site.exists?_congr site' descends (congrArg Option.isSome untouched)).trans missing
    exact .unwritten missing' (site.write_error_again descends done)
  | @unmade path c u missing done =>
    obtain ⟨⟨grown, plain⟩, -⟩ :=
      (site.keeps_makeDirs descends).of_error ⟨.refl _ _ t, site.plain⟩ done
    obtain ⟨again, unchanged | long⟩ := site.makeDirs_error descends done
    · exact .unmade (unchanged ▸ missing) again
    · refine .unmade ?_ again
      rw [← Bool.not_eq_true]
      exact fun there => long ((site.of_grown plain grown).fits_of_exists? descends there)
  | unread there unread => exact .unread there unread
  | unfit reads fault => exact .unfit reads fault
  | unremoved _ => exact absurd rfl builds.mode

/-- The index stays free of imports in its zone when a job that builds does not make it. -/
theorem Outcome.indexFree (grounded : t.Grounded project.root R) (builds : job.Builds index)
    (descends : job.path.Descends job.path.names)
    (aside : ∀ path ∈ index, path.Descends path.names ∧
      (job.mode = .making → ¬ path.names <+: job.path.names))
    (free : project.IndexFree index t) (h : job.Outcome project t added failure u) :
    project.IndexFree index u := by
  intro path mem content hread
  obtain ⟨down, off⟩ := aside path mem
  have grounded' := h.grounded grounded descends
  obtain ⟨-, reads, fits⟩ := grounded'.site.of_read down hread
  have from_same : u.get? (R ++ path.names) = t.get? (R ++ path.names) → ImportFree content := by
    intro same
    have before := (grounded.site.readsAt_iff down fits).2 (same.symm.trans reads.holds)
    exact free path mem content before.read
  have made : job.mode = .making → ImportFree content := fun making =>
    from_same (h.get?_of_making grounded descends making (off making))
  cases builds with
  | write => exact made rfl
  | makeDir => exact made rfl
  | @extend edited patch regular listed =>
    have descends : edited.Descends edited.names := descends
    rcases h.edit_cases grounded descends with rfl | ⟨old, new, reads', turned, rfl⟩
    · exact from_same rfl
    · by_cases here : R ++ path.names = R ++ edited.names
      · have holds := reads'.holds
        rw [← here] at holds
        have before := (grounded.site.readsAt_iff down fits).2 holds
        have now := reads.holds
        rw [get?_set t reads'.ne_nil, if_pos here] at now
        obtain rfl : new = content := by simpa using now
        have adds := IndexPatch.adds_of_apply regular (IndexPatch.apply_of_extend? turned)
        exact adds.importFree regular (free path mem old before.read)
      · exact from_same (by rw [get?_set t reads'.ne_nil, if_neg here])

end Job

/-- Jobs that build, in an order in which none undoes an earlier one. -/
structure Building (index : Option Path) (jobs : List Job) : Prop where
  descends : ∀ job ∈ jobs, job.path.Descends job.path.names
  apart : jobs.Pairwise Job.Apart
  builds : ∀ job ∈ jobs, job.Builds index
  aside : ∀ path ∈ index, path.Descends path.names ∧
    ∀ job ∈ jobs, job.mode = .making → ¬ path.names <+: job.path.names

namespace Building

variable {project : Project} {index : Option Path} {R : Route} {t u : Tree} {job : Job}
  {jobs some : List Job} {added : List Change} {failure : Option Failure}

theorem sublist (h : Building index jobs) (sub : some.Sublist jobs) : Building index some where
  descends job mem := h.descends job (sub.subset mem)
  apart := h.apart.sublist sub
  builds job mem := h.builds job (sub.subset mem)
  aside path mem := ⟨(h.aside path mem).1, fun job mem' => (h.aside path mem).2 job (sub.subset mem')⟩

/-- The first job leaves a tree for the others to go on with. -/
theorem first (h : Building index (job :: jobs)) (grounded : t.Grounded project.root R)
    (free : project.IndexFree index t) (outcome : job.Outcome project t added failure u) :
    u.Grounded project.root R ∧ project.IndexFree index u := by
  have descends := h.descends job List.mem_cons_self
  have builds := h.builds job List.mem_cons_self
  refine ⟨outcome.grounded grounded descends, ?_⟩
  exact outcome.indexFree grounded builds descends
    (fun path mem => ⟨(h.aside path mem).1, (h.aside path mem).2 job List.mem_cons_self⟩) free

/-- What is settled stays so to the end. -/
theorem settled_run (h : Building index (job :: jobs)) (grounded : t.Grounded project.root R)
    (free : project.IndexFree index t) (settled : job.Settled project t)
    (performs : project.Performs t jobs added failure u) : job.Settled project u := by
  have next : ∀ {t u other more added failure}, Building index (job :: other :: more) →
      t.Grounded project.root R → project.IndexFree index t → job.Settled project t →
      other.Outcome project t added failure u → job.Settled project u := by
    intro t u other more added failure h grounded free settled outcome
    have mem : other ∈ job :: other :: more := by simp
    exact settled.next grounded free (h.builds job List.mem_cons_self) (h.builds other mem)
      (h.descends job List.mem_cons_self) (h.descends other mem)
      ((List.pairwise_cons.1 h.apart).1 other List.mem_cons_self) outcome
  induction performs with
  | nil t => exact settled
  | @step t mid u other more added later failure outcome _ ih =>
    obtain ⟨grounded', free'⟩ := (h.sublist (List.sublist_cons_self _ _)).first grounded free outcome
    exact ih (h.sublist ((List.sublist_cons_self other more).cons_cons job)) grounded' free'
      (next h grounded free settled outcome)
  | stop outcome => exact next h grounded free settled outcome

/-- Jobs that are done again change nothing more, and fail where they have failed. -/
theorem repeats (h : Building index jobs) (grounded : t.Grounded project.root R)
    (free : project.IndexFree index t) (performs : project.Performs t jobs added failure u) :
    project.Repeats jobs failure u := by
  induction performs with
  | nil t => exact .nil project t
  | @step t mid u job more added later failure outcome rest ih =>
    obtain ⟨grounded', free'⟩ := h.first grounded free outcome
    have done := outcome.settled grounded free (h.builds job List.mem_cons_self)
      (h.descends job List.mem_cons_self)
    exact .step (h.settled_run grounded' free' done rest)
      (ih (h.sublist (List.sublist_cons_self _ _)) grounded' free')
  | stop outcome =>
    have again := outcome.fails_again grounded (h.builds _ List.mem_cons_self)
      (h.descends _ List.mem_cons_self)
    exact ⟨[], .stop again, by simp⟩

/-- What stands before the jobs stands after them. -/
theorem stays {s : Route} (h : Building index jobs) (grounded : t.Grounded project.root R)
    (free : project.IndexFree index t) (performs : project.Performs t jobs added failure u)
    (hs : (t.get? s).isSome) : u.Grounded project.root R ∧ (u.get? s).isSome := by
  have next : ∀ {t u job more added failure}, Building index (job :: more) →
      t.Grounded project.root R → job.Outcome project t added failure u → (t.get? s).isSome →
      (u.get? s).isSome := fun h grounded outcome hs =>
    outcome.stays grounded (h.descends _ List.mem_cons_self) (h.builds _ List.mem_cons_self).mode hs
  induction performs with
  | nil t => exact ⟨grounded, hs⟩
  | step outcome _ ih =>
    obtain ⟨grounded', free'⟩ := h.first grounded free outcome
    exact ih (h.sublist (List.sublist_cons_self _ _)) grounded' free' (next h grounded outcome hs)
  | stop outcome => exact ⟨(h.first grounded free outcome).1, next h grounded outcome hs⟩

end Building

theorem Names.building_generation {config : Config} {names : Names}
    (inside : Inside config.modulesPath) (hm : IsName names.moduleDir) (worded : names.Worded)
    (useClass : Bool) (kind : EntityKind) :
    Building (some (indexPath config names.moduleDir)) (names.generation config useClass kind) where
  descends := (orderly_generation inside hm worded useClass kind).descends
  apart := (orderly_generation inside hm worded useClass kind).apart
  builds job mem := by
    cases assembles_of_mem mem with
    | write _ => exact .write
    | index _ listed => exact .extend (worded.modulePatch listed).regular fun _ => rfl
    | stories _ => exact .extend worded.regular.story fun entry => by cases entry
  aside path mem := by
    obtain rfl : indexPath config names.moduleDir = path := Option.some.inj mem
    refine ⟨(descends_indexPath inside hm).along_names, fun job mem making => ?_⟩
    obtain ⟨⟨spot, mode⟩, hplace, same, hmode⟩ :=
      (placedAt_generation config names useClass kind).exists_place mem
    obtain rfl : mode = .making := hmode.symm.trans making
    rw [same]
    intro above
    obtain rfl : Spot.index = spot := Spot.eq_of_prefix inside hm worded above
    exact absurd hplace (by decide)

theorem Config.building_moduleJobs {config : Config} {module : Text}
    (inside : Inside config.modulesPath) (hm : IsName module) :
    Building none (config.moduleJobs module) where
  descends := (orderly_moduleJobs inside hm : Orderly Longer _).descends
  apart := (orderly_moduleJobs inside hm : Orderly Longer _).apart
  builds job mem := by
    obtain ⟨tails, -, all⟩ := makes_moduleJobs inside hm
    obtain ⟨tail, -, making, -⟩ := exists_tail all mem
    cases job with
    | write path text => exact .write
    | makeDir path => exact .makeDir
    | edit path change => cases making
    | remove path => cases making
  aside path mem := by cases mem

namespace Project

variable {root : Path} {R : Route} {tree : Tree} {config : Config} {kind : EntityKind} {raw : Text}
  {useClass : Bool} {jobs : List Job}

/-- A call that does nothing but these jobs, then and later, does nothing the second time. -/
theorem again_of_performs (project : Project) {index : Option Path}
    (grounded : tree.Grounded project.root R) (building : Building index jobs)
    (free : project.IndexFree index tree) {run : Run Unit}
    (first : ∀ log, run ⟨tree, log⟩ = project.perform jobs ⟨tree, log⟩)
    (later : ∀ u, u.Grounded project.root R →
      (∀ s, (tree.get? s).isSome → (u.get? s).isSome) → ∀ log,
        run ⟨u, log⟩ = project.perform jobs ⟨u, log⟩) (log : List Change) :
    ∃ added failure u, run ⟨tree, log⟩ = Session.ended log added failure u ∧
      ∀ log, ∃ again, (∀ change ∈ again, change.IsIdle) ∧
        run ⟨u, log⟩ = Session.ended log again failure u := by
  obtain ⟨added, failure, u, performs⟩ := project.exists_performs tree jobs
  refine ⟨added, failure, u, (first log).trans (performs.run_eq log), fun log => ?_⟩
  have grounded' := (building.stays (s := []) grounded free performs rfl).1
  obtain ⟨again, repeated, idle⟩ := building.repeats grounded free performs
  refine ⟨again, idle, ?_⟩
  rw [later u grounded' fun s hs => (building.stays grounded free performs hs).2]
  exact repeated.run_eq log

/-- Generating again changes nothing of what is there, records nothing but what exists or is missing,
and succeeds or fails as it has done before. -/
theorem generate_again (grounded : tree.Grounded root R) (inside : Inside config.modulesPath)
    (free : ∀ names : Names, names.Accepted config raw → ∀ content,
      read (root.join (indexPath config names.moduleDir)) tree = .ok content tree → ImportFree content)
    (log : List Change) : ∃ added failure u,
      generate ⟨root, config⟩ kind raw useClass ⟨tree, log⟩ = Session.ended log added failure u ∧
        ∀ log, ∃ again, (∀ change ∈ again, change.IsIdle) ∧
          generate ⟨root, config⟩ kind raw useClass ⟨u, log⟩ = Session.ended log again failure u := by
  have refused : ∀ failure, (∀ log, generate ⟨root, config⟩ kind raw useClass ⟨tree, log⟩ =
      .error failure ⟨tree, log⟩) → ∃ added failure u,
        generate ⟨root, config⟩ kind raw useClass ⟨tree, log⟩ = Session.ended log added failure u ∧
          ∀ log, ∃ again, (∀ change ∈ again, change.IsIdle) ∧
            generate ⟨root, config⟩ kind raw useClass ⟨u, log⟩ = Session.ended log again failure u := by
    intro failure fails
    have ended : ∀ log, generate ⟨root, config⟩ kind raw useClass ⟨tree, log⟩ =
        Session.ended log [] (some failure) tree := fun log => by
      rw [fails, Session.ended, List.append_nil]
    exact ⟨[], some failure, tree, ended log, fun log => ⟨[], by simp, ended log⟩⟩
  by_cases hkind : kind = .module
  · subst hkind
    cases resolved : moduleResolution ⟨root, config⟩ raw with
    | error failure =>
      exact refused failure fun log => by rw [generate_module_run, resolved]
    | ok dir =>
      have accepts := moduleResolution_eq_ok_iff.1 resolved
      have runs : ∀ t log, generate ⟨root, config⟩ .module raw useClass ⟨t, log⟩ =
          perform ⟨root, config⟩ (config.moduleJobs dir) ⟨t, log⟩ := fun t log => by
        rw [generate_module_run, resolved]
      exact again_of_performs ⟨root, config⟩ grounded (config.building_moduleJobs inside accepts.isName)
        (fun path mem => by cases mem) (runs tree) (fun u _ _ => runs u) log
  · cases resolved : entityResolution ⟨root, config⟩ raw tree with
    | error failure =>
      exact refused failure fun log => by rw [generate_entity_run hkind, resolved]
    | ok names =>
      obtain ⟨accepted, there⟩ := entityResolution_eq_ok_iff.1 resolved
      have down := descends_modulePath inside accepted.isName_moduleDir
      have building := names.building_generation inside accepted.isName_moduleDir accepted.worded
        useClass kind
      refine again_of_performs ⟨root, config⟩ grounded building ?_ ?_ ?_ log
      · intro path mem content hread
        obtain rfl : indexPath config names.moduleDir = path := Option.some.inj mem
        exact free names accepted content hread
      · intro log
        rw [generate_entity_run hkind, resolved]
      · intro u grounded' stays log
        have occupied := stays _ (grounded.site.isSome_of_exists? down there)
        have there' := grounded'.site.exists?_of_fits down
          (grounded.site.fits_of_exists? down there) occupied
        have resolved' : entityResolution ⟨root, config⟩ raw u = .ok names :=
          entityResolution_eq_ok_iff.2 ⟨accepted, there'⟩
        rw [generate_entity_run hkind, resolved']

end Project

theorem importFree_coreIndex : ImportFree coreIndex := by
  intro zone located
  have known : ExportZone.locate? coreIndex exportMarker = some ⟨3, 5⟩ := by decide +kernel
  obtain rfl := Option.some.inj (located.symm.trans known)
  decide +kernel

/-- A container in the module with an index file is generated twice. -/
theorem Project.generate_again_coreTree :
    succeeds (generate ⟨.ofString ".", testedConfig⟩ .container "core:post".toList true)
      ⟨coreTree, []⟩ ∧
    ∃ added failure u,
      generate ⟨.ofString ".", testedConfig⟩ .container "core:post".toList true ⟨coreTree, []⟩ =
        Session.ended [] added failure u ∧
      ∀ log, ∃ again, (∀ change ∈ again, change.IsIdle) ∧
        generate ⟨.ofString ".", testedConfig⟩ .container "core:post".toList true ⟨u, log⟩ =
          Session.ended log again failure u := by
  have inside : Inside testedConfig.modulesPath := inside_default
  refine ⟨by decide +kernel, generate_again grounded_coreTree inside ?_ []⟩
  intro names accepted content hread
  obtain rfl := accepted.eq accepted_postNames
  have coreRead :
      read ((Path.ofString ".").join (indexPath testedConfig postNames.moduleDir)) coreTree =
        .ok coreIndex coreTree := by rfl
  obtain rfl := (EStateM.Result.ok.inj (coreRead.symm.trans hread)).1
  exact importFree_coreIndex

end ComponentForge

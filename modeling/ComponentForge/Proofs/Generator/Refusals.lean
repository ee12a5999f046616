import ComponentForge.Proofs.EntityName
import ComponentForge.Proofs.Generator.Calls
import ComponentForge.Proofs.Letter.Words

/-!
# Names that are refused

A call is refused for its name, for want of a module in it, or for a module that does not exist.
Which of these it is depends on the name, the configuration and what stands at the module's path, and
nothing is done before. What a plan fails with is never about the name.
-/

namespace ComponentForge

open Layout

/-- The failure is about the name that a call was given. -/
def Failure.OfName : Failure → Prop
  | invalidName _ _ | missingModule _ | moduleNotFound _ _ => True
  | _ => False

namespace Config

variable (config : Config) (raw : Text)

/-- The name of an entity, or of its module, is no name under the configuration. -/
def RefusesEntity : Prop :=
  ¬ IsPart raw ∧ (∀ module entity, ¬ Qualified raw module entity) ∨
    ∃ module entity, Qualified raw module entity ∧
      (Wordless entity ∨ config.snakeCaseFileNames ∧ Wordless module)

def RefusesModule : Prop :=
  ¬ IsPart raw ∨ config.snakeCaseFileNames ∧ Wordless raw

end Config

namespace NamingPolicy

variable {policy : NamingPolicy} {module entity dir : Text}

theorem moduleDir_eq_nil_iff (part : IsPart module) :
    policy.moduleDir module = [] ↔ policy.snakeCase ∧ Wordless module := by
  rw [moduleDir]
  by_cases snake : policy.snakeCase
  · simp [snake, Casing.apply_eq_nil_iff]
  · simp [snake, part.ne_nil]

theorem checkedModuleDir_of_nil (h : policy.moduleDir module = []) :
    policy.checkedModuleDir module = .error .wordlessModule := by
  simp [checkedModuleDir, h]

theorem checkedModuleDir_of_ne_nil (h : policy.moduleDir module ≠ []) :
    policy.checkedModuleDir module = .ok (policy.moduleDir module) := by
  simp [checkedModuleDir, h]

theorem checkEntity_of_wordless (h : Wordless entity) :
    policy.checkEntity entity = .error .wordlessEntity := by
  simp [checkEntity, identifier, Casing.apply_eq_nil_iff.2 h]

theorem checkEntity_of_not_wordless (h : ¬ Wordless entity) : policy.checkEntity entity = .ok () := by
  simp [checkEntity, identifier, fileName, Casing.apply_eq_nil_iff, h]

end NamingPolicy

namespace Project

variable {project : Project} {raw module entity : Text} {t : Tree}

theorem moduleResolution_refused (h : project.config.RefusesModule raw) :
    ∃ fault, project.moduleResolution raw = .error (.invalidName raw fault) := by
  rw [moduleResolution]
  cases parsed : EntityName.parse raw with
  | error fault => exact ⟨fault, rfl⟩
  | ok name =>
    rcases EntityName.parse_eq_ok_iff.1 parsed with ⟨part, rfl⟩ | ⟨module, entity, -, rfl⟩
    · have snake := h.resolve_left (not_not_intro part)
      have nothing : project.config.policy.moduleDir raw = [] :=
        (NamingPolicy.moduleDir_eq_nil_iff part).2 snake
      refine ⟨.wordlessModule, ?_⟩
      simp [Except.mapError, bind, Except.bind, NamingPolicy.checkedModuleDir_of_nil nothing]
    · exact ⟨.qualifiedModule, rfl⟩

theorem moduleResolution_accepted (h : ¬ project.config.RefusesModule raw) :
    project.moduleResolution raw = .ok (project.config.policy.moduleDir raw) := by
  obtain ⟨not_refused, words⟩ := not_or.1 h
  have part := Classical.not_not.1 not_refused
  have parsed := EntityName.parse_eq_ok_iff.2 (Or.inl ⟨part, rfl⟩)
  have dir : project.config.policy.moduleDir raw ≠ [] := fun nothing =>
    words ((NamingPolicy.moduleDir_eq_nil_iff part).1 nothing)
  simp [moduleResolution, parsed, NamingPolicy.checkedModuleDir_of_ne_nil dir, Except.mapError, bind,
    Except.bind]

theorem entityResolution_refused (h : project.config.RefusesEntity raw) :
    ∃ fault, project.entityResolution raw t = .error (.invalidName raw fault) := by
  rw [entityResolution]
  rcases h with ⟨part, qualified⟩ | ⟨module, entity, qualified, wordless⟩
  · cases parsed : EntityName.parse raw with
    | error fault => exact ⟨fault, rfl⟩
    | ok name =>
      rcases EntityName.parse_eq_ok_iff.1 parsed with ⟨plain, -⟩ | ⟨module, entity, found, -⟩
      · exact absurd plain part
      · exact absurd found (qualified module entity)
  · have parsed := EntityName.parse_eq_ok_iff.2 (Or.inr ⟨module, entity, qualified, rfl⟩)
    have module_iff : project.config.policy.moduleDir module = [] ↔
        project.config.snakeCaseFileNames ∧ Wordless module :=
      NamingPolicy.moduleDir_eq_nil_iff qualified.module
    by_cases nothing : project.config.policy.moduleDir module = []
    · refine ⟨.wordlessModule, ?_⟩
      simp [parsed, EntityName.ensureModule, NamingPolicy.checkedModuleDir_of_nil nothing,
        Except.mapError, bind, Except.bind]
    · have entity_wordless := wordless.resolve_right fun snake => nothing (module_iff.2 snake)
      refine ⟨.wordlessEntity, ?_⟩
      simp [parsed, EntityName.ensureModule, NamingPolicy.checkedModuleDir_of_ne_nil nothing,
        NamingPolicy.checkEntity_of_wordless entity_wordless, Except.mapError, bind, Except.bind]

theorem entityResolution_plain (h : IsPart raw) :
    project.entityResolution raw t = .error (.missingModule raw) := by
  have parsed := EntityName.parse_eq_ok_iff.2 (Or.inl ⟨h, rfl⟩)
  simp [entityResolution, parsed, EntityName.ensureModule, Except.mapError, bind, Except.bind]

/-- With a name that is not refused, all depends on what stands at the module's path. -/
theorem entityResolution_qualified (qualified : Qualified raw module entity)
    (h : ¬ project.config.RefusesEntity raw) : project.entityResolution raw t =
      let path := modulePath project.config (project.config.policy.moduleDir module)
      if project.exists? t path then .ok (Names.derive project.config module entity)
      else .error (.moduleNotFound module path) := by
  have parsed := EntityName.parse_eq_ok_iff.2 (Or.inr ⟨module, entity, qualified, rfl⟩)
  have words : ¬ (Wordless entity ∨ project.config.snakeCaseFileNames ∧ Wordless module) :=
    fun wordless => h (Or.inr ⟨module, entity, qualified, wordless⟩)
  have dir : project.config.policy.moduleDir module ≠ [] := fun nothing =>
    words (Or.inr ((NamingPolicy.moduleDir_eq_nil_iff qualified.module).1 nothing))
  have checked := NamingPolicy.checkedModuleDir_of_ne_nil dir
  rw [entityResolution]
  simp only [parsed, EntityName.ensureModule, ensureModuleExists, checked,
    NamingPolicy.checkEntity_of_not_wordless (not_or.1 words).1, Except.mapError, bind, Except.bind]
  cases project.exists? t (modulePath project.config (project.config.policy.moduleDir module)) with
  | true => rfl
  | false => rfl

end Project

theorem Failure.not_ofName_ofEditFault (path : Path) (fault : EditFault) :
    ¬ (Failure.ofEditFault path fault).OfName := by
  cases fault <;> exact id

/-- What the job may fail with is not about a name. -/
def Job.Nameless : Job → Prop
  | .write _ (.error failure) => ¬ failure.OfName
  | _ => True

theorem Template.not_ofName_of_fill {config : Config} {kind : EntityKind} {flavor : TemplateFlavor}
    {names : Names} {failure : Failure} (h : Template.fill config kind flavor names = .error failure) :
    ¬ failure.OfName := by
  rcases fill_error h with rfl | ⟨name, rfl⟩ <;> exact id

theorem Names.nameless_writing (config : Config) (names : Names) (spot : Spot) (kind : EntityKind)
    (flavor : TemplateFlavor) : (names.writing config spot kind flavor).Nameless := by
  rw [Names.writing]
  cases filled : Template.fill config kind flavor names with
  | ok text => trivial
  | error failure => exact Template.not_ofName_of_fill filled

theorem Job.Outcome.not_ofName {project : Project} {t u : Tree} {job : Job} {added : List Change}
    {failure : Failure} (h : job.Outcome project t added (some failure) u) (nameless : job.Nameless) :
    ¬ failure.OfName := by
  cases h with
  | refused => exact nameless
  | unfit _ _ => exact Failure.not_ofName_ofEditFault _ _
  | _ => exact id

namespace Project

variable {project : Project} {t u : Tree} {s v : Session} {jobs : List Job} {added : List Change}
  {failure : Failure}

theorem Performs.not_ofName {end? : Option Failure} (h : project.Performs t jobs added end? u)
    (nameless : ∀ job ∈ jobs, job.Nameless) : ∀ failure ∈ end?, ¬ failure.OfName := by
  induction h with
  | nil => simp
  | step _ _ ih => exact ih fun job mem => nameless job (List.mem_cons_of_mem _ mem)
  | stop outcome =>
    intro failure mem
    obtain rfl := Option.some.inj mem
    exact outcome.not_ofName (nameless _ List.mem_cons_self)

theorem perform_ne_error (nameless : ∀ job ∈ jobs, job.Nameless) (h : failure.OfName) :
    project.perform jobs s ≠ .error failure v := by
  obtain ⟨added, end?, u, performs⟩ := project.exists_performs s.tree jobs
  intro broken
  have run := performs.run_eq s.log
  rw [broken] at run
  cases end? with
  | none => cases run
  | some other =>
    obtain ⟨rfl, -⟩ := EStateM.Result.error.inj run
    exact performs.not_ofName nameless _ rfl h

end Project

namespace Call

variable {call : Call} {jobs : List Job} {root : Path} {s u : Session} {failure : Failure}

theorem Plan.nameless (plan : call.Plan jobs) : ∀ job ∈ jobs, job.Nameless := by
  cases plan with
  | generateModule => exact Config.forall_moduleJobs trivial (fun _ _ => trivial) trivial trivial
  | destroyModule => exact List.forall_mem_singleton.2 trivial
  | generateEntity =>
    intro job mem
    cases Names.assembles_of_mem mem with
    | write _ => exact Names.nameless_writing _ _ _ _ _
    | index _ _ => trivial
    | stories _ => trivial
  | destroyEntity =>
    intro job mem
    cases Names.dismantles_of_mem mem <;> trivial

/-- A call fails about its name exactly when the name does not resolve, and has done nothing then. -/
theorem run_eq_error_iff (h : failure.OfName) : call.run root s = .error failure u ↔
    u = s ∧ call.jobs? root s.tree = .error failure := by
  rw [run_eq]
  cases found : call.jobs? root s.tree with
  | error cause => simp [eq_comm, and_comm]
  | ok jobs => exact iff_of_false (Project.perform_ne_error (plan_of_jobs? found).nameless h) (by simp)

/-- The name that the call is given is no name of what the call is about. -/
def Refused (call : Call) : Prop :=
  if call.kind = .module then call.config.RefusesModule call.raw
  else call.config.RefusesEntity call.raw

/-- What a call makes of its name in this tree. -/
inductive Verdict (root : Path) (t : Tree) (call : Call) : Prop
  | refused {fault : NameFault} : call.Refused →
    call.jobs? root t = .error (.invalidName call.raw fault) → Verdict root t call
  | plain : call.kind ≠ .module → IsPart call.raw → ¬ call.Refused →
    call.jobs? root t = .error (.missingModule call.raw) → Verdict root t call
  | missing {module entity : Text} : call.kind ≠ .module → Qualified call.raw module entity →
    ¬ call.Refused →
    Project.exists? ⟨root, call.config⟩ t
      (modulePath call.config (call.config.policy.moduleDir module)) = false →
    call.jobs? root t = .error (.moduleNotFound module
      (modulePath call.config (call.config.policy.moduleDir module))) → Verdict root t call
  | module {jobs : List Job} : call.kind = .module → ¬ call.Refused →
    call.jobs? root t = .ok jobs → Verdict root t call
  | entity {module entity : Text} {jobs : List Job} : Qualified call.raw module entity →
    ¬ call.Refused →
    Project.exists? ⟨root, call.config⟩ t
      (modulePath call.config (call.config.policy.moduleDir module)) = true →
    call.jobs? root t = .ok jobs → Verdict root t call

theorem verdict (root : Path) (t : Tree) (call : Call) : call.Verdict root t := by
  by_cases hkind : call.kind = .module
  · have refused_iff : call.Refused ↔ call.config.RefusesModule call.raw := by simp [Refused, hkind]
    by_cases refused : call.Refused
    · obtain ⟨fault, h⟩ := @Project.moduleResolution_refused ⟨root, call.config⟩ _ (refused_iff.1 refused)
      exact .refused refused (by rw [jobs?, if_pos hkind, h]; rfl)
    · have h := @Project.moduleResolution_accepted ⟨root, call.config⟩ _ (mt refused_iff.2 refused)
      exact .module hkind refused (by rw [jobs?, if_pos hkind, h]; rfl)
  · have refused_iff : call.Refused ↔ call.config.RefusesEntity call.raw := by simp [Refused, hkind]
    by_cases refused : call.Refused
    · obtain ⟨fault, h⟩ := @Project.entityResolution_refused ⟨root, call.config⟩ _ t (refused_iff.1 refused)
      exact .refused refused (by rw [jobs?, if_neg hkind, h]; rfl)
    · by_cases part : IsPart call.raw
      · have h := @Project.entityResolution_plain ⟨root, call.config⟩ _ t part
        exact .plain hkind part refused (by rw [jobs?, if_neg hkind, h]; rfl)
      · obtain ⟨module, entity, qualified⟩ : ∃ module entity, Qualified call.raw module entity := by
          refine Classical.byContradiction fun none => refused (refused_iff.2 (Or.inl ⟨part, ?_⟩))
          exact fun module entity qualified => none ⟨module, entity, qualified⟩
        have h := @Project.entityResolution_qualified ⟨root, call.config⟩ _ _ _ t qualified
          (mt refused_iff.2 refused)
        cases there : Project.exists? ⟨root, call.config⟩ t
            (modulePath call.config (call.config.policy.moduleDir module)) with
        | false =>
          refine .missing hkind qualified refused there ?_
          rw [jobs?, if_neg hkind, h]
          simp [there, Except.map]
        | true =>
          have jobs : call.jobs? root t =
              .ok (call.entityJobs root t (Names.derive call.config module entity)) := by
            rw [jobs?, if_neg hkind, h]
            simp [there, Except.map]
          exact .entity qualified refused there jobs

theorem refused_of_isPart (hkind : call.kind ≠ .module) (part : IsPart call.raw) : ¬ call.Refused := by
  rw [Refused, if_neg hkind]
  rintro (⟨not_part, -⟩ | ⟨module, entity, qualified, -⟩)
  · exact not_part part
  · exact qualified.not_isPart part

theorem invalidName_iff {t : Tree} {name : Text} :
    (∃ fault, call.jobs? root t = .error (.invalidName name fault)) ↔
      name = call.raw ∧ call.Refused := by
  cases call.verdict root t with
  | refused refused h => simp [h, refused, eq_comm]
  | plain _ _ not_refused h => simp [h, not_refused]
  | missing _ _ not_refused _ h => simp [h, not_refused]
  | module _ not_refused h => simp [h, not_refused]
  | entity _ not_refused _ h => simp [h, not_refused]

theorem missingModule_iff {t : Tree} {name : Text} :
    call.jobs? root t = .error (.missingModule name) ↔
      name = call.raw ∧ call.kind ≠ .module ∧ IsPart call.raw := by
  cases call.verdict root t with
  | refused refused h =>
    have no_part : ¬ (call.kind ≠ .module ∧ IsPart call.raw) :=
      fun plain => refused_of_isPart plain.1 plain.2 refused
    simp only [h, Except.error.injEq, reduceCtorEq, false_iff, not_and]
    exact fun _ hkind part => no_part ⟨hkind, part⟩
  | plain hkind part _ h => simp [h, hkind, part, eq_comm]
  | missing _ qualified _ _ h => simp [h, qualified.not_isPart]
  | module hkind _ h => simp [h, hkind]
  | entity qualified _ _ h => simp [h, qualified.not_isPart]

theorem moduleNotFound_iff {t : Tree} {module : Text} {path : Path} :
    call.jobs? root t = .error (.moduleNotFound module path) ↔
      call.kind ≠ .module ∧ ¬ call.Refused ∧ (∃ entity, Qualified call.raw module entity) ∧
        path = modulePath call.config (call.config.policy.moduleDir module) ∧
        Project.exists? ⟨root, call.config⟩ t path = false := by
  cases call.verdict root t with
  | refused refused h => simp [h, refused]
  | plain _ part _ h =>
    have unqualified : ∀ entity, ¬ Qualified call.raw module entity :=
      fun entity qualified => qualified.not_isPart part
    simp [h, unqualified]
  | missing hkind qualified not_refused missing h =>
    simp only [h, Except.error.injEq, Failure.moduleNotFound.injEq]
    constructor
    · rintro ⟨rfl, rfl⟩
      exact ⟨hkind, not_refused, ⟨_, qualified⟩, rfl, missing⟩
    · rintro ⟨-, -, ⟨entity, same⟩, rfl, -⟩
      obtain rfl := (qualified.unique same).1
      exact ⟨rfl, rfl⟩
  | module hkind _ h => simp [h, hkind]
  | entity qualified _ there h =>
    simp only [h, reduceCtorEq, false_iff]
    rintro ⟨-, -, ⟨entity, same⟩, rfl, missing⟩
    obtain rfl := (qualified.unique same).1
    rw [there] at missing
    cases missing

/-- A name fails in exactly these ways, and before anything is done: it is refused, it lacks a module,
or nothing stands at the path of its module. -/
theorem name_failures (root : Path) (call : Call) (s u : Session) :
    (∀ name, (∃ fault, call.run root s = .error (.invalidName name fault) u) ↔
      u = s ∧ name = call.raw ∧ call.Refused) ∧
    (∀ name, call.run root s = .error (.missingModule name) u ↔
      u = s ∧ name = call.raw ∧ call.kind ≠ .module ∧ IsPart call.raw) ∧
    ∀ module path, call.run root s = .error (.moduleNotFound module path) u ↔
      u = s ∧ call.kind ≠ .module ∧ ¬ call.Refused ∧ (∃ entity, Qualified call.raw module entity) ∧
        path = modulePath call.config (call.config.policy.moduleDir module) ∧
        Project.exists? ⟨root, call.config⟩ s.tree path = false := by
  refine ⟨fun name => ?_, fun name => ?_, fun module path => ?_⟩
  · have invalid : ∀ fault, (Failure.invalidName name fault).OfName := fun _ => trivial
    rw [← invalidName_iff]
    constructor
    · rintro ⟨fault, h⟩
      obtain ⟨same, unresolved⟩ := (run_eq_error_iff (invalid fault)).1 h
      exact ⟨same, fault, unresolved⟩
    · rintro ⟨same, fault, unresolved⟩
      exact ⟨fault, (run_eq_error_iff (invalid fault)).2 ⟨same, unresolved⟩⟩
  · rw [← missingModule_iff]
    exact run_eq_error_iff trivial
  · rw [← moduleNotFound_iff]
    exact run_eq_error_iff trivial

end Call

end ComponentForge

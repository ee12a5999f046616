import ComponentForge.Proofs.Generator.Plans

/-!
# Calls

A call resolves its name and then performs a plan. The resolution looks at the tree and changes
nothing. A run is any sequence of calls, each with a configuration of its own, succeeded or failed.
-/

namespace ComponentForge

open Layout

namespace Project

variable {project : Project} {names : Names} {t : Tree}

/-- The name that a call for an entity resolves to, by a look at the tree. -/
def entityResolution (project : Project) (raw : Text) (t : Tree) : Except Failure Names := do
  let name ← (EntityName.parse raw).mapError (.invalidName raw)
  let module ← name.ensureModule
  let _ ← (project.config.policy.checkedModuleDir module).mapError (.invalidName raw)
  (project.config.policy.checkEntity name.entity).mapError (.invalidName raw)
  let _ ← project.ensureModuleExists t module
  return Names.derive project.config module name.entity

/-- The module directory that a call for a module resolves to. -/
def moduleResolution (project : Project) (raw : Text) : Except Failure Text := do
  let name ← (EntityName.parse raw).mapError (.invalidName raw)
  if name.module.isSome then throw (.invalidName raw .qualifiedModule)
  (project.config.policy.checkedModuleDir name.entity).mapError (.invalidName raw)

/-- A look at the tree and then another one are one look. -/
theorem look_bind {α β ε : Type} {fail : ε → Failure} {x : Except ε α} {f : α → Run β}
    {g : α → Except Failure β} {s : Session} (h : ∀ a, f a s = Run.ofExcept id (g a) s) :
    (Run.ofExcept fail x >>= f) s = Run.ofExcept id (x.mapError fail >>= g) s := by
  cases x with
  | ok a =>
    rw [bind_of_ok (Run.ofExcept_ok a s), h]
    rfl
  | error e =>
    rw [bind_of_error (Run.ofExcept_error e s)]
    rfl

theorem look_bind_id {α β : Type} {x : Except Failure α} {f : α → Run β}
    {g : α → Except Failure β} {s : Session} (h : ∀ a, f a s = Run.ofExcept id (g a) s) :
    (Run.ofExcept id x >>= f) s = Run.ofExcept id (x >>= g) s := by
  have same : x.mapError id = x := by cases x <;> rfl
  have looked := @look_bind _ _ _ id x _ _ _ h
  rwa [same] at looked

theorem resolveEntity_run (project : Project) (raw : Text) (s : Session) :
    project.resolveEntity raw s = Run.ofExcept id (project.entityResolution raw s.tree) s := by
  rw [resolveEntity, entityResolution]
  refine look_bind fun name => ?_
  refine look_bind_id fun module => look_bind fun _ => look_bind fun _ => ?_
  rw [get_bind_run]
  exact look_bind_id fun _ => rfl

theorem resolveModule_run (project : Project) (raw : Text) (s : Session) :
    project.resolveModule raw s = Run.ofExcept id (project.moduleResolution raw) s := by
  rw [resolveModule, moduleResolution]
  refine look_bind fun name => ?_
  cases name.module with
  | some module => rfl
  | none =>
    simp only [Option.isSome_none, Bool.false_eq_true, if_false]
    cases project.config.policy.checkedModuleDir name.entity <;> rfl

theorem entityResolution_eq_ok_iff {raw : Text} : project.entityResolution raw t = .ok names ↔
    names.Accepted project.config raw ∧
      project.exists? t (modulePath project.config names.moduleDir) := by
  constructor
  · intro h
    have resolved : project.resolveEntity raw ⟨t, []⟩ = .ok names ⟨t, []⟩ := by
      rw [resolveEntity_run, h]
      rfl
    obtain ⟨-, accepted, -, there⟩ := resolveEntity_ok resolved
    exact ⟨accepted, there⟩
  · rintro ⟨⟨name, module, dir, parsed, module_some, checked, words, rfl⟩, there⟩
    obtain ⟨-, rfl⟩ := NamingPolicy.isName_of_checkedModuleDir
      ((EntityName.isName_of_parse parsed).2 module module_some) checked
    have found : project.ensureModuleExists t module =
        .ok (modulePath project.config (project.config.policy.moduleDir module)) := by
      simp only [ensureModuleExists, checked]
      exact if_pos there
    simp [entityResolution, parsed, EntityName.ensureModule, module_some, checked, words, found,
      Except.mapError, bind, Except.bind, pure, Except.pure]

end Project

/-- The directory of a module whose raw name passes every check of a name. -/
def Config.AcceptsModule (config : Config) (raw dir : Text) : Prop :=
  ∃ name, EntityName.parse raw = .ok name ∧ name.module = none ∧
    config.policy.checkedModuleDir name.entity = .ok dir

theorem Config.AcceptsModule.isName {config : Config} {raw dir : Text}
    (h : config.AcceptsModule raw dir) : IsName dir := by
  obtain ⟨name, parsed, -, checked⟩ := h
  exact (NamingPolicy.isName_of_checkedModuleDir (EntityName.isName_of_parse parsed).1 checked).1

namespace Project

variable {project : Project} {names : Names} {kind : EntityKind} {raw dir : Text} {useClass : Bool}
  {t u : Tree} {log added : List Change} {failure : Option Failure} {jobs : List Job}

theorem moduleResolution_eq_ok_iff :
    project.moduleResolution raw = .ok dir ↔ project.config.AcceptsModule raw dir := by
  rw [moduleResolution, Config.AcceptsModule]
  cases parsed : EntityName.parse raw with
  | error fault => simp [Except.mapError, bind, Except.bind]
  | ok name =>
    cases qualified : name.module with
    | some module =>
      simp [Except.mapError, bind, Except.bind, qualified, throw, throwThe, MonadExceptOf.throw]
    | none =>
      cases checked : project.config.policy.checkedModuleDir name.entity <;>
        simp [Except.mapError, bind, Except.bind, qualified, checked]

/-- The tree after the jobs, done or broken off. -/
def treeAfter (project : Project) (jobs : List Job) (t : Tree) : Tree :=
  match project.perform jobs ⟨t, []⟩ with
  | .ok _ s => s.tree
  | .error _ s => s.tree

theorem Performs.treeAfter_eq (h : project.Performs t jobs added failure u) :
    project.treeAfter jobs t = u := by
  rw [treeAfter, h.run_eq]
  cases failure <;> rfl

/-- Destroying the entity of this kind goes on to its story. -/
def storied (project : Project) (names : Names) (kind : EntityKind) (t : Tree) : Bool :=
  kind == .storybook || project.config.storybook ||
    project.exists? (project.treeAfter (names.removals project.config kind) t)
      (Spot.story.path project.config names)

theorem perform_then_story (project : Project) (names : Names) (jobs : List Job) (t : Tree)
    (log : List Change) : (do
      project.perform jobs
      if project.config.storybook ||
          project.exists? (← get).tree (Spot.story.path project.config names) then
        project.perform (names.storyRemovals project.config) : Run Unit) ⟨t, log⟩ =
      project.perform (jobs ++ Job.whenSet (project.config.storybook ||
        project.exists? (project.treeAfter jobs t) (Spot.story.path project.config names))
          (names.storyRemovals project.config)) ⟨t, log⟩ := by
  obtain ⟨added, failure, mid, performs⟩ := project.exists_performs t jobs
  have first := performs.run_eq log
  rw [perform_append, performs.treeAfter_eq]
  cases failure with
  | some failure => rw [bind_of_error first, bind_of_error first]
  | none => rw [bind_of_ok first, bind_of_ok first, get_bind_run, Job.perform_whenSet]

theorem destroyEntity_run (hkind : kind ≠ .module) (t : Tree) (log : List Change) :
    (match kind with
      | .module => pure ()
      | .component => project.destroyComponent names
      | .container => project.destroyContainer names
      | .storybook => project.destroyStorybook names : Run Unit) ⟨t, log⟩ =
      project.perform (names.destruction project.config kind (project.storied names kind t))
        ⟨t, log⟩ := by
  cases kind with
  | module => exact absurd rfl hkind
  | component =>
    dsimp only
    rw [destroyComponent_eq, perform_then_story]
    rfl
  | container =>
    have regroup := perform_append project (names.containerRemovals project.config)
      (names.componentRemovals project.config)
    have whole := perform_then_story project names (names.containerRemovals project.config ++
      names.componentRemovals project.config) t log
    dsimp only
    rw [destroyContainer_eq, destroyComponent_eq, ← bind_assoc, ← regroup, whole]
    rfl
  | storybook =>
    dsimp only
    rw [destroyStorybook_eq]
    rfl

theorem generate_module_run (t : Tree) (log : List Change) :
    project.generate .module raw useClass ⟨t, log⟩ = match project.moduleResolution raw with
      | .error failure => .error failure ⟨t, log⟩
      | .ok dir => project.perform (project.config.moduleJobs dir) ⟨t, log⟩ := by
  have resolved := resolveModule_run project raw ⟨t, log⟩
  rw [generate]
  cases h : project.moduleResolution raw with
  | error failure =>
    rw [h, Run.ofExcept_error] at resolved
    exact bind_of_error resolved
  | ok dir =>
    rw [h, Run.ofExcept_ok] at resolved
    rw [bind_of_ok resolved, generateModule_eq]

theorem destroy_module_run (t : Tree) (log : List Change) :
    project.destroy .module raw ⟨t, log⟩ = match project.moduleResolution raw with
      | .error failure => .error failure ⟨t, log⟩
      | .ok dir => project.perform [.remove (modulePath project.config dir)] ⟨t, log⟩ := by
  have resolved := resolveModule_run project raw ⟨t, log⟩
  rw [destroy]
  cases h : project.moduleResolution raw with
  | error failure =>
    rw [h, Run.ofExcept_error] at resolved
    exact bind_of_error resolved
  | ok dir =>
    rw [h, Run.ofExcept_ok] at resolved
    rw [bind_of_ok resolved, destroyModule_eq]

theorem generate_entity_run (hkind : kind ≠ .module) (t : Tree) (log : List Change) :
    project.generate kind raw useClass ⟨t, log⟩ = match project.entityResolution raw t with
      | .error failure => .error failure ⟨t, log⟩
      | .ok names =>
        project.perform (names.generation project.config useClass kind) ⟨t, log⟩ := by
  have resolved := resolveEntity_run project raw ⟨t, log⟩
  cases h : project.entityResolution raw t with
  | error failure =>
    rw [h, Run.ofExcept_error] at resolved
    cases kind with
    | module => exact absurd rfl hkind
    | _ => exact bind_of_error resolved
  | ok names =>
    rw [h, Run.ofExcept_ok] at resolved
    cases kind with
    | module => exact absurd rfl hkind
    | component => rw [generate, bind_of_ok resolved, generateComponent_eq]; rfl
    | container => rw [generate, bind_of_ok resolved, generateContainer_eq]; rfl
    | storybook => rw [generate, bind_of_ok resolved, generateStorybook_eq]; rfl

theorem destroy_entity_run (hkind : kind ≠ .module) (t : Tree) (log : List Change) :
    project.destroy kind raw ⟨t, log⟩ = match project.entityResolution raw t with
      | .error failure => .error failure ⟨t, log⟩
      | .ok names => project.perform
        (names.destruction project.config kind (project.storied names kind t)) ⟨t, log⟩ := by
  have resolved := resolveEntity_run project raw ⟨t, log⟩
  cases h : project.entityResolution raw t with
  | error failure =>
    rw [h, Run.ofExcept_error] at resolved
    cases kind with
    | module => exact absurd rfl hkind
    | _ => exact bind_of_error resolved
  | ok names =>
    rw [h, Run.ofExcept_ok] at resolved
    dsimp only
    rw [← destroyEntity_run hkind]
    cases kind with
    | module => exact absurd rfl hkind
    | _ => exact bind_of_ok resolved

/-- What a call that generates has done is all in its plan. -/
theorem perform_of_generate {s v : Session} (hkind : kind ≠ .module)
    (accepted : names.Accepted project.config raw)
    (h : project.generate kind raw useClass s = .ok () v) :
    project.perform (names.generation project.config useClass kind) s = .ok () v := by
  have run := h.symm.trans (generate_entity_run hkind s.tree s.log)
  cases resolved : project.entityResolution raw s.tree with
  | error failure =>
    rw [resolved] at run
    cases run
  | ok found =>
    rw [resolved] at run
    obtain rfl := (entityResolution_eq_ok_iff.1 resolved).1.eq accepted
    exact run.symm

theorem perform_of_destroy {s v : Session} (hkind : kind ≠ .module)
    (accepted : names.Accepted project.config raw) (h : project.destroy kind raw s = .ok () v) :
    project.perform
      (names.destruction project.config kind (project.storied names kind s.tree)) s = .ok () v := by
  have run := h.symm.trans (destroy_entity_run hkind s.tree s.log)
  cases resolved : project.entityResolution raw s.tree with
  | error failure =>
    rw [resolved] at run
    cases run
  | ok found =>
    rw [resolved] at run
    obtain rfl := (entityResolution_eq_ok_iff.1 resolved).1.eq accepted
    exact run.symm

/-- The story is skipped only if it is missing once the other files are gone. -/
theorem missing_of_not_storied {s v : Session}
    (h : project.perform (names.removals project.config kind) s = .ok () v)
    (unset : project.storied names kind s.tree = false) :
    project.exists? v.tree (Spot.story.path project.config names) = false := by
  obtain ⟨added, performs⟩ := performs_of_ok h
  rw [storied, performs.treeAfter_eq, Bool.or_eq_false_iff] at unset
  exact unset.2

end Project

/-- A call with its own configuration. -/
inductive Call where
  | generate (config : Config) (kind : EntityKind) (raw : Text) (useClass : Bool)
  | destroy (config : Config) (kind : EntityKind) (raw : Text)

namespace Call

def config : Call → Config
  | generate config _ _ _ => config
  | destroy config _ _ => config

def kind : Call → EntityKind
  | generate _ kind _ _ => kind
  | destroy _ kind _ => kind

/-- The name that the call is about, as a user gives it. -/
def raw : Call → Text
  | generate _ _ raw _ => raw
  | destroy _ _ raw => raw

def run (root : Path) : Call → Run Unit
  | generate config kind raw useClass => Project.generate ⟨root, config⟩ kind raw useClass
  | destroy config kind raw => Project.destroy ⟨root, config⟩ kind raw

/-- The session after the call, whether it succeeded or failed. -/
def after (root : Path) (s : Session) (call : Call) : Session :=
  match call.run root s with
  | .ok _ u => u
  | .error _ u => u

/-- The session after all calls in turn. -/
def afterAll (root : Path) (s : Session) (calls : List Call) : Session :=
  calls.foldl (after root) s

/-- The patches of index files of modules that a call for an entity with these names may apply. -/
def patches (call : Call) (names : Names) : List IndexPatch :=
  names.modulePatches call.kind

/-- What a call does after its name is accepted. -/
inductive Plan : Call → List Job → Prop
  | generateModule {config : Config} {raw dir : Text} {useClass : Bool} :
    config.AcceptsModule raw dir →
    Plan (.generate config .module raw useClass) (config.moduleJobs dir)
  | destroyModule {config : Config} {raw dir : Text} : config.AcceptsModule raw dir →
    Plan (.destroy config .module raw) [.remove (modulePath config dir)]
  | generateEntity {config : Config} {kind : EntityKind} {raw : Text} {useClass : Bool} {names : Names} :
    kind ≠ .module → names.Accepted config raw →
    Plan (.generate config kind raw useClass) (names.generation config useClass kind)
  | destroyEntity {config : Config} {kind : EntityKind} {raw : Text} {names : Names} {storied : Bool} :
    kind ≠ .module → names.Accepted config raw →
    Plan (.destroy config kind raw) (names.destruction config kind storied)

variable {call : Call} {jobs : List Job} {root : Path} {R : Route} {t : Tree}

/-- What the call does with the module directory that its name resolves to. -/
def moduleJobs (dir : Text) : Call → List Job
  | generate config _ _ _ => config.moduleJobs dir
  | destroy config _ _ => [.remove (modulePath config dir)]

/-- What the call does with the names of an entity that its name resolves to. -/
def entityJobs (root : Path) (t : Tree) (names : Names) : Call → List Job
  | generate config kind _ useClass => names.generation config useClass kind
  | destroy config kind _ =>
    names.destruction config kind (Project.storied ⟨root, config⟩ names kind t)

/-- What the call does in this tree, or why its name does not resolve. -/
def jobs? (root : Path) (t : Tree) (call : Call) : Except Failure (List Job) :=
  if call.kind = .module then
    (Project.moduleResolution ⟨root, call.config⟩ call.raw).map fun dir => call.moduleJobs dir
  else
    (Project.entityResolution ⟨root, call.config⟩ call.raw t).map fun names =>
      call.entityJobs root t names

/-- A call looks at the tree for what it does and then does it. -/
theorem run_eq (root : Path) (call : Call) (s : Session) : call.run root s =
    match call.jobs? root s.tree with
    | .error failure => .error failure s
    | .ok jobs => Project.perform ⟨root, call.config⟩ jobs s := by
  by_cases hkind : call.kind = .module
  · rw [jobs?, if_pos hkind]
    cases call with
    | generate config kind raw useClass =>
      obtain rfl : kind = .module := hkind
      refine (@Project.generate_module_run ⟨root, config⟩ raw useClass s.tree s.log).trans ?_
      simp only [Call.config, Call.raw]
      cases Project.moduleResolution ⟨root, config⟩ raw <;> rfl
    | destroy config kind raw =>
      obtain rfl : kind = .module := hkind
      refine (@Project.destroy_module_run ⟨root, config⟩ raw s.tree s.log).trans ?_
      simp only [Call.config, Call.raw]
      cases Project.moduleResolution ⟨root, config⟩ raw <;> rfl
  · rw [jobs?, if_neg hkind]
    cases call with
    | generate config kind raw useClass =>
      refine (Project.generate_entity_run hkind s.tree s.log).trans ?_
      simp only [Call.config, Call.raw]
      cases Project.entityResolution ⟨root, config⟩ raw s.tree <;> rfl
    | destroy config kind raw =>
      refine (Project.destroy_entity_run hkind s.tree s.log).trans ?_
      simp only [Call.config, Call.raw]
      cases Project.entityResolution ⟨root, config⟩ raw s.tree <;> rfl

theorem plan_of_jobs? (h : call.jobs? root t = .ok jobs) : call.Plan jobs := by
  rw [jobs?] at h
  split at h
  · rename_i hkind
    cases resolved : Project.moduleResolution ⟨root, call.config⟩ call.raw with
    | error failure => simp [resolved, Except.map] at h
    | ok dir =>
      rw [resolved] at h
      obtain rfl := Except.ok.inj h
      have accepts := Project.moduleResolution_eq_ok_iff.1 resolved
      cases call with
      | generate config kind raw useClass =>
        obtain rfl : kind = .module := hkind
        exact .generateModule accepts
      | destroy config kind raw =>
        obtain rfl : kind = .module := hkind
        exact .destroyModule accepts
  · rename_i hkind
    cases resolved : Project.entityResolution ⟨root, call.config⟩ call.raw t with
    | error failure => simp [resolved, Except.map] at h
    | ok names =>
      rw [resolved] at h
      obtain rfl := Except.ok.inj h
      have accepted := (Project.entityResolution_eq_ok_iff.1 resolved).1
      cases call with
      | generate config kind raw useClass => exact .generateEntity hkind accepted
      | destroy config kind raw => exact .destroyEntity hkind accepted

/-- A call fails for its name and does nothing, or performs a plan. -/
theorem run_cases (root : Path) (call : Call) (t : Tree) :
    (∃ failure, ∀ log, call.run root ⟨t, log⟩ = .error failure ⟨t, log⟩) ∨
      ∃ jobs, call.Plan jobs ∧
        ∀ log, call.run root ⟨t, log⟩ = Project.perform ⟨root, call.config⟩ jobs ⟨t, log⟩ := by
  cases found : call.jobs? root t with
  | error failure => exact Or.inl ⟨failure, fun log => by rw [run_eq, found]⟩
  | ok jobs => exact Or.inr ⟨jobs, plan_of_jobs? found, fun log => by rw [run_eq, found]⟩

end Call

def indexedConfig : Config :=
  { Config.default with useIndexFile := true }

def snakeConfig : Config :=
  { indexedConfig with snakeCaseFileNames := true }

end ComponentForge

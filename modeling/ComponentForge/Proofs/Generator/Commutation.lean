import ComponentForge.Proofs.Generator.Stages
import ComponentForge.Proofs.Tree.Locality

/-!
# Calls for different modules

What a call reads and writes lies at the directory of its module, below it, or on the way to it. Where
the modules root stands, nothing changes outside this directory, so that a call for another module
finds all that it depends on as it was. Such calls can be made in either order.
-/

namespace ComponentForge

open Access Layout ComponentForge.Tree

namespace Job

/-- The job is about the entry at the route or below it. -/
def Within (R D : Route) (job : Job) : Prop :=
  job.path.Descends job.path.names ∧ D <+: R ++ job.path.names

variable {project : Project} {R D base : Route} {t u t' : Tree} {job : Job} {added : List Change}
  {failure : Option Failure} {m : Text}

/-- In a tree that is alike the job comes to the same. -/
theorem Outcome.alike (alike : Alike project.root R D t t') (left : t.Grounded project.root R)
    (right : t'.Grounded project.root R) (within : job.Within R D)
    (h : job.Outcome project t added failure u) :
    ∃ u', job.Outcome project t' added failure u' ∧ Alike project.root R D u u' := by
  obtain ⟨descends, hD⟩ := within
  have found : project.exists? t job.path = project.exists? t' job.path :=
    alike.exists?_eq descends hD
  have reads : ∀ {r content}, ReadsAt t (project.root.join job.path) r content →
      ReadsAt t' (project.root.join job.path) r content := by
    intro r content reads
    obtain rfl := left.site.readsAt_route descends reads
    have fits := left.site.fits_of_exists? descends reads.exists?
    exact (right.site.readsAt_iff descends fits).2
      ((alike.same_along hD (List.prefix_refl _)).symm.trans reads.holds)
  have grounded := h.grounded left descends
  cases h with
  | refused => exact ⟨t', .refused, alike⟩
  | stands there => exact ⟨t', .stands (found.symm.trans there), alike⟩
  | written missing done =>
    obtain ⟨w, done', alike⟩ := (Alike.respects_write descends hD _ t t' alike).of_ok done
    exact ⟨w, .written (found.symm.trans missing) done', alike⟩
  | unwritten missing done =>
    obtain ⟨w, done', alike⟩ := (Alike.respects_write descends hD _ t t' alike).of_error done
    exact ⟨w, .unwritten (found.symm.trans missing) done', alike⟩
  | standsDir there => exact ⟨t', .standsDir (found.symm.trans there), alike⟩
  | made missing done =>
    obtain ⟨w, done', alike⟩ := (Alike.respects_makeDirs descends hD t t' alike).of_ok done
    exact ⟨w, .made (found.symm.trans missing) done', alike⟩
  | unmade missing done =>
    obtain ⟨w, done', alike⟩ := (Alike.respects_makeDirs descends hD t t' alike).of_error done
    exact ⟨w, .unmade (found.symm.trans missing) done', alike⟩
  | lacking missing => exact ⟨t', .lacking (found.symm.trans missing), alike⟩
  | unread there failed =>
    obtain ⟨w, failed', alike⟩ := (Alike.respects_read descends hD t t' alike).of_error failed
    obtain rfl := ofExcept_error failed'
    exact ⟨w, .unread (found.symm.trans there) failed', alike⟩
  | unfit held fault => exact ⟨t', .unfit (reads held) fault, alike⟩
  | kept held none => exact ⟨t', .kept (reads held) none, alike⟩
  | edited held turned =>
    have outcome := Outcome.edited (reads held) turned
    have grounded' := outcome.grounded right descends
    exact ⟨_, outcome, alike.set held.ne_nil _ grounded.site grounded'.site⟩
  | absent done =>
    obtain ⟨w, done', alike⟩ := (alike.remove_alike descends hD left right).of_ok done
    exact ⟨w, .absent done', alike⟩
  | removed done =>
    obtain ⟨w, done', alike⟩ := (alike.remove_alike descends hD left right).of_ok done
    exact ⟨w, .removed done', alike⟩
  | unremoved done =>
    obtain ⟨w, done', alike⟩ := (alike.remove_alike descends hD left right).of_error done
    exact ⟨w, .unremoved done', alike⟩

/-- Where the directory above stands, nothing changes outside. -/
theorem Outcome.outside (grounded : t.Grounded project.root R) (stands : t.get? base = some .dir)
    (within : job.Within R (base ++ [m])) (h : job.Outcome project t added failure u) {s : Route}
    (hs : ¬ base ++ [m] <+: s) : u.get? s = t.get? s := by
  obtain ⟨descends, hD⟩ := within
  cases h.effect grounded descends s with
  | same same => exact same
  | newDir _ new =>
    -- a new directory that is not below lies above, where all stands already
    obtain ⟨⟨p, -, hp, rfl⟩, gone, -⟩ := new
    have way : R ++ p <+: R ++ job.path.names := (List.prefix_append_right_inj R).2 hp
    have above := (List.prefix_or_prefix_of_prefix way hD).resolve_right hs
    rcases List.prefix_concat_iff.1 above with same | above
    · exact absurd (same ▸ List.prefix_refl _) hs
    · rw [grounded.plain.standing stands _ above] at gone
      cases gone
  | made _ here _ _ => exact absurd (here ▸ hD) hs
  | edited _ here _ _ => exact absurd (here ▸ hD) hs
  | removed _ below _ => exact absurd (hD.trans below) hs

end Job

namespace Project

variable {project : Project} {R D base : Route} {t u t' : Tree} {jobs : List Job}
  {added : List Change} {failure : Option Failure} {m : Text}

theorem Performs.alike (h : project.Performs t jobs added failure u)
    (within : ∀ job ∈ jobs, job.Within R D) (alike : Alike project.root R D t t')
    (left : t.Grounded project.root R) (right : t'.Grounded project.root R) :
    ∃ u', project.Performs t' jobs added failure u' ∧ Alike project.root R D u u' := by
  induction h generalizing t' with
  | nil t => exact ⟨t', .nil t', alike⟩
  | @step t mid u job more added later failure outcome _ ih =>
    have here := within job List.mem_cons_self
    obtain ⟨mid', outcome', alike⟩ := outcome.alike alike left right here
    obtain ⟨u', rest, alike⟩ := ih (fun job mem => within job (List.mem_cons_of_mem _ mem)) alike
      (outcome.grounded left here.1) (outcome'.grounded right here.1)
    exact ⟨u', .step outcome' rest, alike⟩
  | stop outcome =>
    obtain ⟨u', outcome', alike⟩ := outcome.alike alike left right (within _ List.mem_cons_self)
    exact ⟨u', .stop outcome', alike⟩

theorem Performs.outside (h : project.Performs t jobs added failure u)
    (within : ∀ job ∈ jobs, job.Within R (base ++ [m])) (grounded : t.Grounded project.root R)
    (stands : t.get? base = some .dir) {s : Route} (hs : ¬ base ++ [m] <+: s) :
    u.get? s = t.get? s := by
  have above : ¬ base ++ [m] <+: base := fun below => by
    have lengths := below.length_le
    rw [List.length_append, List.length_singleton] at lengths
    omega
  have kept := h.preserves (P := fun v => v.Grounded project.root R ∧
      ∀ s, ¬ base ++ [m] <+: s → v.get? s = t.get? s)
    (fun job mem v added failure w outcome ⟨grounded, same⟩ =>
      ⟨outcome.grounded grounded (within job mem).1, fun s hs =>
        (outcome.outside grounded ((same base above).trans stands) (within job mem) hs).trans
          (same s hs)⟩)
    ⟨grounded, fun _ _ => rfl⟩
  exact kept.2 s hs

end Project

theorem Project.entityResolution_of_accepted (project : Project) {raw : Text} {names : Names}
    (accepted : names.Accepted project.config raw) : ∃ failure, ∀ t,
      project.entityResolution raw t =
        if project.exists? t (modulePath project.config names.moduleDir) then .ok names
        else .error failure := by
  obtain ⟨name, module, dir, parsed, module_some, checked, words, rfl⟩ := accepted
  obtain ⟨-, rfl⟩ := NamingPolicy.isName_of_checkedModuleDir
    ((EntityName.isName_of_parse parsed).2 module module_some) checked
  refine ⟨.moduleNotFound module
    (modulePath project.config (project.config.policy.moduleDir module)), fun t => ?_⟩
  cases there : project.exists? t
      (modulePath project.config (Names.derive project.config module name.entity).moduleDir) with
  | true =>
    rw [if_pos rfl]
    exact entityResolution_eq_ok_iff.2
      ⟨⟨name, module, _, parsed, module_some, checked, words, rfl⟩, there⟩
  | false =>
    have missing : project.exists? t
      (modulePath project.config (project.config.policy.moduleDir module)) = false := there
    simp [entityResolution, parsed, EntityName.ensureModule, module_some, checked, words,
      ensureModuleExists, missing, Except.mapError, bind, Except.bind]

/-- The directory of a module, by its name. -/
def Config.moduleRoute (config : Config) (R : Route) (m : Text) : Route :=
  R ++ modulesRoute config.modulesPath ++ [m]

namespace Call

/-- The name of the call resolves to the directory of this module. -/
def ResolvesTo (call : Call) (m : Text) : Prop :=
  if call.kind = .module then call.config.AcceptsModule call.raw m
  else ∃ names : Names, names.Accepted call.config call.raw ∧ names.moduleDir = m

/-- Whatever was recorded before, the call records this, fails so or not, and leaves this tree. -/
def ComesTo (root : Path) (call : Call) (t : Tree) (added : List Change) (failure : Option Failure)
    (u : Tree) : Prop :=
  ∀ log, call.run root ⟨t, log⟩ = Session.ended log added failure u

/-- In either order each of the calls comes to the same, and the trees that they leave are the same. -/
def Commute (root : Path) (t : Tree) (first second : Call) : Prop :=
  ∃ added later failure failure' u v u' v',
    (ComesTo root first t added failure u ∧ ComesTo root second u later failure' v) ∧
    (ComesTo root second t later failure' u' ∧ ComesTo root first u' added failure v') ∧
    ∀ r, v.get? r = v'.get? r

variable {call first second : Call} {m n : Text} {jobs : List Job} {root : Path} {R base s : Route}
  {t t' u v : Tree} {names : Names} {added later : List Change} {failure failure' : Option Failure}

theorem ComesTo.unique (h : ComesTo root call t added failure u)
    (h' : ComesTo root call t later failure' v) : added = later ∧ failure = failure' ∧ u = v := by
  have same := (h []).symm.trans (h' [])
  cases failure <;> cases failure' <;> simp_all [Session.ended]

theorem ResolvesTo.eq_of_accepts {dir : Text} (h : call.ResolvesTo m) (hkind : call.kind = .module)
    (accepts : call.config.AcceptsModule call.raw dir) : dir = m := by
  rw [ResolvesTo, if_pos hkind] at h
  obtain ⟨name, parsed, -, checked⟩ := h
  obtain ⟨name', parsed', -, checked'⟩ := accepts
  obtain rfl := Except.ok.inj (parsed.symm.trans parsed')
  exact Except.ok.inj (checked'.symm.trans checked)

theorem ResolvesTo.eq_of_accepted (h : call.ResolvesTo m) (hkind : call.kind ≠ .module)
    (accepted : names.Accepted call.config call.raw) : names.moduleDir = m := by
  rw [ResolvesTo, if_neg hkind] at h
  obtain ⟨others, accepted', rfl⟩ := h
  rw [accepted.eq accepted']

/-- All that a plan does is done in the directory of the module. -/
theorem Plan.within_module (inside : Inside call.config.modulesPath) (resolves : call.ResolvesTo m)
    (plan : call.Plan jobs) : ∀ job ∈ jobs, job.Within R (call.config.moduleRoute R m) := by
  intro job mem
  refine ⟨(plan.orderly inside).descends job mem, ?_⟩
  obtain ⟨path, footprint, below⟩ := plan.within inside mem
  have here : modulesRoute call.config.modulesPath ++ [m] <+: path.names := by
    cases footprint with
    | module hkind accepts =>
      obtain rfl := resolves.eq_of_accepts hkind accepts
      rw [(descends_modulePath inside accepts.isName).names]
    | file spot hkind accepted =>
      obtain rfl := resolves.eq_of_accepted hkind accepted
      rw [spot.names_path inside accepted.isName_moduleDir accepted.worded,
        List.prefix_append_right_inj]
      exact ⟨_, rfl⟩
  rw [Config.moduleRoute, List.append_assoc, List.prefix_append_right_inj]
  exact here.trans below

section Alike

variable (inside : Inside call.config.modulesPath) (resolves : call.ResolvesTo m)
  (alike : Alike root R (call.config.moduleRoute R m) t t') (left : t.Grounded root R)
  (right : t'.Grounded root R)

include inside resolves alike

theorem entityResolution_alike (hkind : call.kind ≠ .module) :
    Project.entityResolution ⟨root, call.config⟩ call.raw t =
      Project.entityResolution ⟨root, call.config⟩ call.raw t' := by
  have here := resolves
  rw [ResolvesTo, if_neg hkind] at here
  obtain ⟨names, accepted, hm⟩ := here
  obtain ⟨failure, resolution⟩ := Project.entityResolution_of_accepted ⟨root, call.config⟩ accepted
  have descends := descends_modulePath inside accepted.isName_moduleDir
  have there : Project.exists? ⟨root, call.config⟩ t (modulePath call.config names.moduleDir) =
      Project.exists? ⟨root, call.config⟩ t' (modulePath call.config names.moduleDir) := by
    refine alike.exists?_eq descends ?_
    rw [hm, Config.moduleRoute, List.append_assoc]
  rw [resolution, resolution, there]

include left right

/-- Whether destroying goes on to the story. -/
theorem storied_alike (hkind : call.kind ≠ .module)
    (accepted : names.Accepted call.config call.raw) (kind : EntityKind) :
    Project.storied ⟨root, call.config⟩ names kind t =
      Project.storied ⟨root, call.config⟩ names kind t' := by
  have hm := accepted.isName_moduleDir
  have worded := accepted.worded
  obtain rfl := resolves.eq_of_accepted hkind accepted
  have at_spot : ∀ spot : Spot,
      call.config.moduleRoute R names.moduleDir <+: R ++ (spot.path call.config names).names := by
    intro spot
    rw [spot.names_path inside hm worded, Config.moduleRoute, List.append_assoc,
      List.prefix_append_right_inj, List.prefix_append_right_inj]
    exact ⟨_, rfl⟩
  have within : ∀ job ∈ names.removals call.config kind,
      job.Within R (call.config.moduleRoute R names.moduleDir) := by
    intro job mem
    obtain ⟨place, -, same, -⟩ := (names.placedAt_destruction call.config kind false).exists_place
      (List.mem_append_left _ mem)
    rw [Job.Within, same]
    exact ⟨(Spot.descends inside hm worded place.1).along_names, at_spot place.1⟩
  obtain ⟨added, failure, u, performs⟩ := Project.exists_performs ⟨root, call.config⟩ t
    (names.removals call.config kind)
  obtain ⟨u', performs', alike⟩ := performs.alike within alike left right
  have there : Project.exists? ⟨root, call.config⟩ u (Spot.story.path call.config names) =
      Project.exists? ⟨root, call.config⟩ u' (Spot.story.path call.config names) :=
    alike.exists?_eq (Spot.descends inside hm worded .story).along_names (at_spot .story)
  rw [Project.storied, Project.storied, performs.treeAfter_eq, performs'.treeAfter_eq, there]

/-- The call does the same in both trees. -/
theorem jobs?_alike : call.jobs? root t = call.jobs? root t' := by
  rw [jobs?, jobs?]
  split
  · rfl
  · rename_i hkind
    rw [entityResolution_alike inside resolves alike hkind]
    cases resolved : Project.entityResolution ⟨root, call.config⟩ call.raw t' with
    | error failure => rfl
    | ok names =>
      have accepted := (Project.entityResolution_eq_ok_iff.1 resolved).1
      cases call with
      | generate config kind raw useClass => rfl
      | destroy config kind raw =>
        have story := storied_alike inside resolves alike left right hkind accepted kind
        exact congrArg (fun storied => Except.ok (names.destruction config kind storied)) story

end Alike

/-- In trees that are alike around the module the call comes to the same, and leaves the rest of each. -/
theorem ComesTo.exists_alike (inside : Inside call.config.modulesPath) (resolves : call.ResolvesTo m)
    (left : t.Grounded root R) (right : t'.Grounded root R)
    (stands : t.get? (R ++ modulesRoute call.config.modulesPath) = some .dir)
    (alike : Alike root R (call.config.moduleRoute R m) t t') : ∃ added failure u u',
      ComesTo root call t added failure u ∧ ComesTo root call t' added failure u' ∧
      (u.Grounded root R ∧ u'.Grounded root R) ∧ Alike root R (call.config.moduleRoute R m) u u' ∧
      ∀ s, ¬ call.config.moduleRoute R m <+: s → u.get? s = t.get? s ∧ u'.get? s = t'.get? s := by
  have same := jobs?_alike inside resolves alike left right
  cases found : call.jobs? root t with
  | error failure =>
    refine ⟨[], some failure, t, t', fun log => ?_, fun log => ?_, ⟨left, right⟩, alike,
      fun s _ => ⟨rfl, rfl⟩⟩
    · rw [run_eq, found]
      simp [Session.ended]
    · rw [run_eq, ← same, found]
      simp [Session.ended]
  | ok jobs =>
    have plan := plan_of_jobs? found
    have within := plan.within_module (R := R) inside resolves
    obtain ⟨added, failure, u, performs⟩ := Project.exists_performs ⟨root, call.config⟩ t jobs
    obtain ⟨u', performs', alike'⟩ := performs.alike within alike left right
    have stands' := (alike.same _ (Or.inl (List.prefix_append _ _))).symm.trans stands
    refine ⟨added, failure, u, u', fun log => ?_, fun log => ?_, ⟨?_, ?_⟩, alike', fun s hs => ⟨?_, ?_⟩⟩
    · rw [run_eq, found]
      exact performs.run_eq log
    · rw [run_eq, ← same, found]
      exact performs'.run_eq log
    · exact performs.grounded (fun job mem => (within job mem).1) left
    · exact performs'.grounded (fun job mem => (within job mem).1) right
    · exact performs.outside within left stands hs
    · exact performs'.outside within right stands' hs

/-- Nothing that is near one entry of a directory lies at or below another one. -/
theorem not_prefix_of_near (ne : m ≠ n) (near : Near (base ++ [n]) s) : ¬ base ++ [m] <+: s := by
  have apart : ∀ {a b : Text}, a ≠ b → ¬ base ++ [a] <+: base ++ [b] := by
    intro a b ne below
    rw [List.prefix_append_right_inj, List.cons_prefix_cons] at below
    exact ne below.1
  intro below
  rcases near with way | beyond
  · exact apart ne (below.trans way)
  · rcases List.prefix_or_prefix_of_prefix below beyond with here | here
    · exact apart ne here
    · exact apart ne.symm here

/-- Calls for different modules commute, whether they succeed or fail. -/
theorem commute_of_ne (grounded : t.Grounded root R) (inside : Inside first.config.modulesPath)
    (shared : second.config.modulesPath = first.config.modulesPath)
    (stands : t.get? (R ++ modulesRoute first.config.modulesPath) = some .dir)
    (hm : first.ResolvesTo m) (hn : second.ResolvesTo n) (ne : m ≠ n) :
    Commute root t first second := by
  have inside' : Inside second.config.modulesPath := shared ▸ inside
  have stands' : t.get? (R ++ modulesRoute second.config.modulesPath) = some .dir := shared ▸ stands
  have off : ∀ {s}, Near (second.config.moduleRoute R n) s → ¬ first.config.moduleRoute R m <+: s := by
    intro s near
    rw [Config.moduleRoute, shared] at near
    exact not_prefix_of_near ne near
  have off' : ∀ {s}, Near (first.config.moduleRoute R m) s → ¬ second.config.moduleRoute R n <+: s := by
    intro s near
    rw [Config.moduleRoute, shared]
    exact not_prefix_of_near ne.symm near
  -- the first call alone, then the second one beside it, then the first one beside the second
  obtain ⟨added, failure, u, _, first_run, -, ⟨grounded_u, -⟩, -, outside⟩ :=
    ComesTo.exists_alike inside hm grounded grounded stands ⟨grounded.site, grounded.site, fun _ _ => rfl⟩
  obtain ⟨later, failure', u', v, second_run, second_after, ⟨grounded_u', -⟩, alike_second, outside'⟩ :=
    ComesTo.exists_alike inside' hn grounded grounded_u stands'
      ⟨grounded.site, grounded_u.site, fun s near => (outside s (off near)).1.symm⟩
  obtain ⟨_, _, _, v', first_run', first_after, -, alike_first, outside_first⟩ :=
    ComesTo.exists_alike inside hm grounded grounded_u' stands
      ⟨grounded.site, grounded_u'.site, fun s near => (outside' s (off' near)).1.symm⟩
  obtain ⟨rfl, rfl, rfl⟩ := first_run.unique first_run'
  refine ⟨added, later, failure, failure', u, v, u', v', ⟨first_run, second_after⟩,
    ⟨second_run, first_after⟩, fun r => ?_⟩
  by_cases here : first.config.moduleRoute R m <+: r
  · calc v.get? r = u.get? r := (outside' r (off' (Or.inr here))).2
      _ = v'.get? r := alike_first.same r (Or.inr here)
  · by_cases there : second.config.moduleRoute R n <+: r
    · calc v.get? r = u'.get? r := (alike_second.same r (Or.inr there)).symm
        _ = v'.get? r := (outside_first r here).2.symm
    · calc v.get? r = u.get? r := (outside' r there).2
        _ = t.get? r := (outside r here).1
        _ = u'.get? r := (outside' r there).1.symm
        _ = v'.get? r := (outside_first r here).2.symm

/-- A container in one module and a new module beside it. -/
theorem commute_coreCall : coreTree.Grounded (.ofString ".") [] ∧
    coreTree.get? ([] ++ modulesRoute coreCall.config.modulesPath) = some .dir ∧
    coreCall.ResolvesTo "core".toList ∧
    (generate testedConfig .module "blog".toList false).ResolvesTo "blog".toList ∧
    Commute (.ofString ".") coreTree coreCall (generate testedConfig .module "blog".toList false) := by
  have stands : coreTree.get? ([] ++ modulesRoute coreCall.config.modulesPath) = some .dir := by
    decide +kernel
  have core : coreCall.ResolvesTo "core".toList := ⟨postNames, accepted_postNames, rfl⟩
  have blog : (generate testedConfig .module "blog".toList false).ResolvesTo "blog".toList :=
    ⟨⟨"blog".toList, none, "blog".toList⟩, by decide +kernel, rfl, by decide +kernel⟩
  exact ⟨grounded_coreTree, stands, core, blog,
    commute_of_ne grounded_coreTree inside_default rfl stands core blog (by decide)⟩

end Call

end ComponentForge

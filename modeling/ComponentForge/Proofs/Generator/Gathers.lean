import ComponentForge.Proofs.Generator.IndexSteps
import ComponentForge.Proofs.Generator.Refusals

/-!
# Runs that keep index files gathered

Every job of a call, a failed one included, leaves a gathered tree gathered, and none of them fails
for want of an export zone. So does every call, if the condition on the barrels of its module respects
the patches of its entity.
-/

namespace ComponentForge

open Access Index Layout ComponentForge.Tree

/-- The failure is not that of an index file without a zone. -/
def Failure.Locatable (failure : Failure) : Prop :=
  ∀ path marker, failure ≠ .unlocatableMarker path marker

/-- The run leaves a gathered tree gathered and finds every zone. -/
def Gathers {α : Type} (start : Tree) (R : Route) (modulesPath : Text) (P : Text → Barrel → Prop)
    (run : Run α) : Prop :=
  Keeps (fun s => Gathered start R modulesPath P s.tree) Failure.Locatable run

/-- The condition is kept when the patch is applied and when it is taken back. -/
structure IndexPatch.Respects (patch : IndexPatch) (P : Barrel → Prop) : Prop where
  add : ∀ {line x : Text}, patch = ⟨line, some (entry x)⟩ → ∀ (hline : IsModuleImport line)
    (hx : IsWord x) (barrel : Barrel), P barrel → P (barrel.add hline hx)
  remove : ∀ {line x : Text}, patch = ⟨line, some (entry x)⟩ → ∀ barrel : Barrel, P barrel →
    P (barrel.remove line x)

theorem Failure.locatable_access (path : Path) (cause : Cause) : (access path cause).Locatable :=
  fun _ _ => nofun

variable {start t : Tree} {project : Project} {root path : Path} {R : Route}
  {P : Text → Barrel → Prop} {modulesPath m text : Text} {tail : List Text}

section Files

variable (empty : EmptySite start root R)

include empty

theorem keeps_write (descends : path.Descends (modulesRoute modulesPath ++ m :: tail))
    (hne : tail ≠ []) (aside : Aside tail.dropLast)
    (index : tail = indexTail → ∃ barrel : Barrel, text = barrel.text ∧ P m barrel)
    (stories : tail = storiesTail → ∃ stories : StoryList, text = stories.text) :
    Keeps (Gathered start R modulesPath P) (fun _ => True) (write (root.join path) text) := by
  intro t gathered
  have site := gathered.site empty
  cases h : write (root.join path) text t with
  | ok a u =>
    obtain ⟨filled, after, -⟩ := site.write_ok descends h
    exact gathered.filled empty filled after.plain hne aside index stories
  | error cause u =>
    obtain ⟨grown, after⟩ := site.write_error descends h
    rw [List.dropLast_append_of_ne_nil (by simp), List.dropLast_cons_of_ne_nil hne] at grown
    exact ⟨gathered.grown grown after.plain aside, trivial⟩

theorem keeps_makeDirs (descends : path.Descends (modulesRoute modulesPath ++ m :: tail))
    (aside : Aside tail) :
    Keeps (Gathered start R modulesPath P) (fun _ => True) (makeDirs (root.join path)) := by
  intro t gathered
  have site := gathered.site empty
  have made := site.keeps_makeDirs descends t ⟨.refl _ _ t, site.plain⟩
  cases h : makeDirs (root.join path) t with
  | ok a u =>
    rw [h] at made
    exact gathered.grown made.1 made.2 aside
  | error cause u =>
    rw [h] at made
    exact ⟨gathered.grown made.1.1 made.1.2 aside, trivial⟩

theorem keeps_remove {q : List Text} (descends : path.Descends q) :
    Keeps (Gathered start R modulesPath P) (fun _ => True) (remove (root.join path)) := by
  intro t gathered
  obtain ⟨shrunk, plain⟩ := (gathered.site empty).after_remove descends
  have after := gathered.shrunk empty descends.ne_nil shrunk plain
  cases h : remove (root.join path) t with
  | ok a u => exact after_of_ok h ▸ after
  | error cause u => exact ⟨after_of_error h ▸ after, trivial⟩

end Files

namespace Gathers

/-- A job is judged by its outcomes. -/
theorem of_outcomes {job : Job}
    (h : ∀ t added failure u, Gathered start R modulesPath P t →
      job.Outcome project t added failure u →
        Gathered start R modulesPath P u ∧ ∀ f ∈ failure, f.Locatable) :
    Gathers start R modulesPath P (job.run project) := by
  rintro ⟨t, log⟩ gathered
  obtain ⟨added, failure, u, outcome⟩ := job.exists_outcome project t
  have after := h t added failure u gathered outcome
  rw [outcome.run_eq]
  cases failure with
  | none => exact after.1
  | some failure => exact ⟨after.1, after.2 failure rfl⟩

theorem perform {jobs : List Job}
    (h : ∀ job ∈ jobs, Gathers start R modulesPath P (job.run project)) :
    Gathers start R modulesPath P (project.perform jobs) := by
  induction jobs with
  | nil => exact Keeps.pure _
  | cons job rest ih =>
    obtain ⟨first, later⟩ := List.forall_mem_cons.1 h
    exact first.bind fun _ => ih later

variable (empty : EmptySite start project.root R)

include empty

theorem write {filling : Except Failure Text}
    (descends : path.Descends (modulesRoute modulesPath ++ m :: tail))
    (hne : tail ≠ []) (aside : Aside tail.dropLast)
    (index : ∀ text, filling = .ok text → tail = indexTail →
      ∃ barrel : Barrel, text = barrel.text ∧ P m barrel)
    (stories : ∀ text, filling = .ok text → tail = storiesTail →
      ∃ stories : StoryList, text = stories.text)
    (locatable : ∀ failure, filling = .error failure → failure.Locatable) :
    Gathers start R modulesPath P ((Job.write path filling).run project) := by
  refine of_outcomes fun t added failure u gathered outcome => ?_
  cases outcome with
  | refused => exact ⟨gathered, by simpa using locatable _ rfl⟩
  | stands there => exact ⟨gathered, nofun⟩
  | written missing done =>
    have keeps := keeps_write empty descends hne aside (index _ rfl) (stories _ rfl)
    exact ⟨keeps.of_ok gathered done, nofun⟩
  | unwritten missing done =>
    have keeps := keeps_write empty descends hne aside (index _ rfl) (stories _ rfl)
    exact ⟨(keeps.of_error gathered done).1, by simpa using Failure.locatable_access _ _⟩

theorem makeDir (descends : path.Descends (modulesRoute modulesPath ++ m :: tail))
    (aside : Aside tail) :
    Gathers start R modulesPath P ((Job.makeDir path).run project) := by
  refine of_outcomes fun t added failure u gathered outcome => ?_
  have keeps : Keeps (Gathered start R modulesPath P) _ _ := keeps_makeDirs empty descends aside
  cases outcome with
  | standsDir there => exact ⟨gathered, nofun⟩
  | made missing done => exact ⟨keeps.of_ok gathered done, nofun⟩
  | unmade missing done =>
    exact ⟨(keeps.of_error gathered done).1, by simpa using Failure.locatable_access _ _⟩

theorem remove {q : List Text} (descends : path.Descends q) :
    Gathers start R modulesPath P ((Job.remove path).run project) := by
  refine of_outcomes fun t added failure u gathered outcome => ?_
  have keeps : Keeps (Gathered start R modulesPath P) _ _ := keeps_remove empty descends
  cases outcome with
  | absent done => exact ⟨keeps.of_ok gathered done, nofun⟩
  | removed done => exact ⟨keeps.of_ok gathered done, nofun⟩
  | unremoved done =>
    exact ⟨(keeps.of_error gathered done).1, by simpa using Failure.locatable_access _ _⟩

/-- Of an edit only what it makes of the text counts, if it makes anything of it. -/
theorem edit {change : Text → Except EditFault (Option Text)}
    (descends : path.Descends (modulesRoute modulesPath ++ m :: tail)) (hne : tail ≠ [])
    (aside : Aside tail.dropLast)
    (fits : ∀ t content, Gathered start R modulesPath P t →
      ReadsAt t (project.root.join path) (R ++ (modulesRoute modulesPath ++ m :: tail)) content →
        ∃ edited?, change content = .ok edited? ∧ ∀ new ∈ edited?,
          (tail = indexTail → ∃ barrel : Barrel, new = barrel.text ∧ P m barrel) ∧
            (tail = storiesTail → ∃ stories : StoryList, new = stories.text)) :
    Gathers start R modulesPath P ((Job.edit path change).run project) := by
  refine of_outcomes fun t added failure u gathered outcome => ?_
  have site := gathered.site empty
  cases outcome with
  | lacking missing => exact ⟨gathered, nofun⟩
  | unread there unread => exact ⟨gathered, by simpa using Failure.locatable_access _ _⟩
  | unfit reads fault =>
    obtain rfl := site.readsAt_route descends reads
    obtain ⟨edited?, ends, -⟩ := fits t _ gathered reads
    cases fault.symm.trans ends
  | kept reads none => exact ⟨gathered, nofun⟩
  | edited reads changed =>
    obtain rfl := site.readsAt_route descends reads
    obtain ⟨edited?, ends, lists⟩ := fits t _ gathered reads
    obtain ⟨index, stories⟩ := lists _ (Except.ok.inj (ends.symm.trans changed))
    exact ⟨gathered.filled empty (filled_refill reads.holds) (gathered.plain.refill reads.holds)
      hne aside index stories, nofun⟩

variable (inside : Inside project.config.modulesPath) (hm : IsName m)

include inside hm

/-- An edit of the index file of a module makes barrels of barrels. -/
theorem editIndex {change : Text → Except EditFault (Option Text)}
    (fits : ∀ barrel : Barrel, P m barrel → ∃ edited?, change barrel.text = .ok edited? ∧
      ∀ new ∈ edited?, ∃ after : Barrel, new = after.text ∧ P m after) :
    Gathers start R project.config.modulesPath P
      ((Job.edit (indexPath project.config m) change).run project) := by
  refine edit empty (descends_indexPath inside hm) (by decide) aside_dropLast_indexTail
    fun t content gathered reads => ?_
  obtain ⟨barrel, same, holds⟩ := gathered.barrels m _ reads.holds
  obtain rfl : content = barrel.text := by simpa using same
  obtain ⟨edited?, ends, lists⟩ := fits barrel holds
  exact ⟨edited?, ends, fun new mem =>
    ⟨fun _ => lists new mem, fun same => absurd same indexTail_ne_storiesTail⟩⟩

theorem editStories {change : Text → Except EditFault (Option Text)}
    (fits : ∀ stories : StoryList, ∃ edited?, change stories.text = .ok edited? ∧
      ∀ new ∈ edited?, ∃ after : StoryList, new = after.text) :
    Gathers start R project.config.modulesPath P
      ((Job.edit (storiesIndexPath project.config m) change).run project) := by
  refine edit empty (descends_storiesIndexPath inside hm) (by decide) aside_dropLast_storiesTail
    fun t content gathered reads => ?_
  obtain ⟨stories, same⟩ := gathered.stories m _ reads.holds
  obtain rfl : content = stories.text := by simpa using same
  obtain ⟨edited?, ends, lists⟩ := fits stories
  exact ⟨edited?, ends, fun new mem =>
    ⟨fun same => absurd same.symm indexTail_ne_storiesTail, fun _ => lists new mem⟩⟩

end Gathers

section Patches

variable {patch : IndexPatch} {line : Text}

theorem Index.IsModulePatch.extends_barrel (built : IsModulePatch patch) (respects : patch.Respects (P m))
    (barrel : Barrel) (holds : P m barrel) : ∃ edited?, patch.extend? barrel.text = .ok edited? ∧
      ∀ new ∈ edited?, ∃ after : Barrel, new = after.text ∧ P m after := by
  obtain ⟨line, x, hline, hx, rfl⟩ := built
  refine ⟨_, IndexPatch.extend?_of_apply (barrel.apply_text hline hx), fun new mem => ?_⟩
  split at mem
  · cases mem
  · obtain rfl := Option.some.inj mem
    exact ⟨_, rfl, respects.add rfl hline hx barrel holds⟩

theorem Index.IsModulePatch.reverts_barrel (built : IsModulePatch patch) (respects : patch.Respects (P m))
    (barrel : Barrel) (holds : P m barrel) : ∃ edited?, patch.revert? barrel.text = .ok edited? ∧
      ∀ new ∈ edited?, ∃ after : Barrel, new = after.text ∧ P m after := by
  obtain ⟨line, x, hline, hx, rfl⟩ := built
  refine ⟨_, barrel.revert?_text hline hx, fun new mem => ?_⟩
  split at mem
  · obtain rfl := Option.some.inj mem
    exact ⟨_, rfl, respects.remove rfl barrel holds⟩
  · cases mem

theorem Index.IsStoryImport.extends_stories (hline : IsStoryImport line) (stories : StoryList) :
    ∃ edited?, (IndexPatch.mk line none).extend? stories.text = .ok edited? ∧
      ∀ new ∈ edited?, ∃ after : StoryList, new = after.text := by
  refine ⟨_, IndexPatch.extend?_of_apply (stories.apply_text hline), fun new mem => ?_⟩
  split at mem
  · cases mem
  · exact ⟨_, (Option.some.inj mem).symm⟩

theorem Index.IsStoryImport.reverts_stories (hline : IsStoryImport line) (stories : StoryList) :
    ∃ edited?, (IndexPatch.mk line none).revert? stories.text = .ok edited? ∧
      ∀ new ∈ edited?, ∃ after : StoryList, new = after.text := by
  refine ⟨_, stories.revert?_text hline, fun new mem => ?_⟩
  split at mem
  · exact ⟨_, (Option.some.inj mem).symm⟩
  · cases mem

end Patches

theorem Spot.aside_tail {config : Config} {names : Names} {spot : Spot} {useClass : Bool}
    {template : EntityKind × TemplateFlavor} (h : spot.template? useClass = some template) :
    Aside (spot.tail config names) := by
  cases spot with
  | component => exact @aside_entityTail _ .component _ (by decide)
  | componentTest => exact aside_testTail (Or.inl rfl)
  | container => exact @aside_entityTail _ .container _ (by decide)
  | containerTest => exact aside_testTail (Or.inr rfl)
  | story => exact @aside_entityTail _ .storybook _ (by decide)
  | index => cases h
  | stories => cases h

/-- A template that cannot be filled in is not an index file without a zone. -/
theorem Template.locatable_of_fill {config : Config} {kind : EntityKind} {flavor : TemplateFlavor}
    {names : Names} {failure : Failure} (h : Template.fill config kind flavor names = .error failure) :
    failure.Locatable := by
  rcases fill_error h with rfl | ⟨name, rfl⟩ <;> exact fun _ _ => nofun

namespace Call

variable {call : Call} {jobs : List Job}

/-- A name that does not resolve is not an index file without a zone. -/
theorem locatable_of_jobs? {failure : Failure} (h : call.jobs? root t = .error failure) :
    failure.Locatable := by
  have fails : ∀ {other : Failure}, call.jobs? root t = .error other → other.Locatable →
      failure.Locatable :=
    fun found locatable => Except.error.inj (found.symm.trans h) ▸ locatable
  cases call.verdict root t with
  | refused _ found => exact fails found fun _ _ => nofun
  | plain _ _ _ found => exact fails found fun _ _ => nofun
  | missing _ _ _ _ found => exact fails found fun _ _ => nofun
  | module _ _ found => cases found.symm.trans h
  | entity _ _ _ found => cases found.symm.trans h

section Calls

variable (empty : EmptySite start root R) (inside : Inside call.config.modulesPath)
  (fresh : ∀ m, P m Barrel.empty)
  (respects : ∀ names, names.Accepted call.config call.raw →
    ∀ patch ∈ call.patches names, patch.Respects (P names.moduleDir))

include empty inside fresh respects

theorem Plan.gathers (plan : call.Plan jobs) : ∀ job ∈ jobs,
    Gathers start R call.config.modulesPath P (job.run ⟨root, call.config⟩) := by
  have empty : EmptySite start (Project.mk root call.config).root R := empty
  cases plan with
  | @generateModule config raw dir useClass accepts =>
    have hm := accepts.isName
    have fresh_text : Index.fresh = Barrel.empty.text := by decide
    refine Config.forall_moduleJobs ?_ (fun kind hkind => ?_) ?_ ?_
    · exact .makeDir empty (descends_modulePath inside hm) aside_nil
    · have below := descends_directory (descends_modulePath inside hm) kind hkind
      rw [List.append_assoc, List.singleton_append] at below
      exact .makeDir empty below (aside_directoryNames kind)
    · refine .write empty (descends_indexPath inside hm) (by decide) aside_dropLast_indexTail
        (fun text same _ => ?_) (fun _ _ same => absurd same indexTail_ne_storiesTail) nofun
      exact ⟨Barrel.empty, (Except.ok.inj same).symm.trans fresh_text, fresh dir⟩
    · refine .write empty (descends_storiesIndexPath inside hm) (by decide)
        aside_dropLast_storiesTail (fun _ _ same => absurd same.symm indexTail_ne_storiesTail)
        (fun text same _ => ?_) nofun
      exact ⟨StoryList.empty, (Except.ok.inj same).symm⟩
  | destroyModule accepts =>
    exact List.forall_mem_singleton.2 (.remove empty (descends_modulePath inside accepts.isName))
  | @generateEntity config kind raw useClass names hkind accepted =>
    intro job mem
    have hm := accepted.isName_moduleDir
    have worded := accepted.worded
    cases Names.assembles_of_mem mem with
    | @write spot subject flavor templated =>
      have aside : Aside (spot.tail config names) := Spot.aside_tail templated
      exact .write empty (spot.descends inside hm worded) (by simp [Spot.tail]) aside.dropLast
        (fun _ _ same => absurd same aside.ne.1) (fun _ _ same => absurd same aside.ne.2)
        fun _ => Template.locatable_of_fill
    | index _ listed =>
      exact .editIndex empty inside hm
        ((worded.modulePatch listed).extends_barrel (respects names accepted _ listed))
    | stories _ =>
      obtain ⟨line, hline, hpatch⟩ := worded.storyPatch
      rw [hpatch]
      exact .editStories empty inside hm hline.extends_stories
  | @destroyEntity config kind raw names storied hkind accepted =>
    intro job mem
    have hm := accepted.isName_moduleDir
    have worded := accepted.worded
    cases Names.dismantles_of_mem mem with
    | remove spot _ => exact .remove empty (spot.descends inside hm worded)
    | index _ listed =>
      exact .editIndex empty inside hm
        ((worded.modulePatch listed).reverts_barrel (respects names accepted _ listed))
    | stories _ _ =>
      obtain ⟨line, hline, hpatch⟩ := worded.storyPatch
      rw [hpatch]
      exact .editStories empty inside hm hline.reverts_stories

theorem gathers_run : Gathers start R call.config.modulesPath P (call.run root) := by
  intro s gathered
  rw [run_eq]
  cases found : call.jobs? root s.tree with
  | error failure => exact ⟨gathered, locatable_of_jobs? found⟩
  | ok jobs =>
    exact Gathers.perform ((plan_of_jobs? found).gathers empty inside fresh respects) s gathered

/-- What one call leaves gathered. -/
theorem gathered_after {s : Session} (gathered : Gathered start R call.config.modulesPath P s.tree) :
    Gathered start R call.config.modulesPath P (call.after root s).tree := by
  have kept := gathers_run empty inside fresh respects s gathered
  rw [after]
  cases h : call.run root s with
  | ok a u =>
    rw [h] at kept
    exact kept
  | error e u =>
    rw [h] at kept
    exact kept.1

end Calls

/-- What any calls leave gathered. -/
theorem gathered_afterAll (empty : EmptySite start root R) (inside : Inside modulesPath)
    {calls : List Call} (fixed : ∀ call ∈ calls, call.config.modulesPath = modulesPath) {s : Session}
    (gathered : Gathered start R modulesPath (fun _ _ => True) s.tree) :
    Gathered start R modulesPath (fun _ _ => True) (afterAll root s calls).tree := by
  induction calls generalizing s with
  | nil => exact gathered
  | cons call rest ih =>
    obtain rfl := fixed call List.mem_cons_self
    refine ih (fun other hother => fixed other (List.mem_cons_of_mem call hother)) ?_
    exact gathered_after empty inside (fun _ => trivial)
      (fun _ _ _ _ => ⟨fun _ _ _ _ _ => trivial, fun _ _ _ => trivial⟩) gathered

end Call

end ComponentForge

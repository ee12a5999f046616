import ComponentForge.Proofs.Generator.Plans
import ComponentForge.Proofs.Generator.Shifts

/-!
# Accounts of a run

An account relates the tree before a run, the changes recorded so far and the tree so far: what
stands at a route is as before or explained by a recorded change or a new directory, and every
recorded change holds of the two trees. A job that is apart from the jobs before it carries the
account on, and so does a run of jobs that are apart from each other.
-/

namespace ComponentForge

open Access ComponentForge.Tree

namespace Job

/-- Two edits are apart. Of other jobs the later must not be on the way to the earlier, nor below the
earlier if that is not there to make something. -/
def Apart (earlier later : Job) : Prop :=
  earlier.mode = .editing ∧ later.mode = .editing ∨
    ¬ later.path.names <+: earlier.path.names ∧
      (earlier.mode ≠ .making → ¬ earlier.path.names <+: later.path.names)

end Job

/-- What a recorded change says of the trees before and after. -/
def Change.Holds (project : Project) (R : Route) (Later : Text → Text → Prop) (start t : Tree)
    (change : Change) : Prop :=
  match change.action with
  | .create => start.get? (R ++ change.path.names) = none ∧
    (t.get? (R ++ change.path.names)).isSome
  | .update => ∃ old new, start.get? (R ++ change.path.names) = some (.file (.text old)) ∧
    t.get? (R ++ change.path.names) = some (.file (.text new)) ∧ Later old new
  | .remove => (start.get? (R ++ change.path.names)).isSome ∧
    ∀ s, R ++ change.path.names <+: s → t.get? s = none
  | .exists => project.exists? start change.path = true ∧ project.exists? t change.path = true
  | .missing => project.exists? start change.path = false ∧ project.exists? t change.path = false

/-- What has become of a route. -/
inductive Status (R : Route) (start : Tree) (done : List Job) (changes : List Change) (t : Tree)
    (s : Route) : Prop
  | same : t.get? s = start.get? s → Status R start done changes t s
  | grown {job : Job} {p : Route} : job ∈ done → job.mode = .making → p ≠ [] →
    p <+: job.path.names → s = R ++ p → start.get? s = none → t.get? s = some .dir →
    Status R start done changes t s
  | created {path : Path} {content : Content} : ⟨.create, path⟩ ∈ changes → s = R ++ path.names →
    start.get? s = none → t.get? s = some (.file content) → Status R start done changes t s
  | updated {path : Path} {old new : Text} : ⟨.update, path⟩ ∈ changes → s = R ++ path.names →
    start.get? s = some (.file (.text old)) → t.get? s = some (.file (.text new)) →
    Status R start done changes t s
  | removed {path : Path} : ⟨.remove, path⟩ ∈ changes → R ++ path.names <+: s →
    t.get? s = none → Status R start done changes t s

variable {project : Project} {R : Route} {Later : Text → Text → Prop} {start t u : Tree}
  {done : List Job} {changes added : List Change} {job : Job}

theorem Status.keep {s : Route} (h : Status R start done changes t s) (same : u.get? s = t.get? s)
    (job : Job) (added : List Change) : Status R start (done ++ [job]) (changes ++ added) u s := by
  cases h with
  | same before => exact .same (same.trans before)
  | grown mem making hne hp hs gone dir =>
    exact .grown (List.mem_append_left _ mem) making hne hp hs gone (same.trans dir)
  | created mem hs gone file =>
    exact .created (List.mem_append_left _ mem) hs gone (same.trans file)
  | updated mem hs old new => exact .updated (List.mem_append_left _ mem) hs old (same.trans new)
  | removed mem hs gone => exact .removed (List.mem_append_left _ mem) hs (same.trans gone)

/-- The account of a run so far. -/
structure Traced (project : Project) (R : Route) (Later : Text → Text → Prop) (start : Tree)
    (done : List Job) (changes : List Change) (t : Tree) : Prop where
  started : start.Grounded project.root R
  grounded : t.Grounded project.root R
  descends : ∀ job ∈ done, job.path.Descends job.path.names
  recorded : ∀ change ∈ changes, ∃ job ∈ done, job.path = change.path ∧ job.mode = change.action.mode
  status : ∀ s, Status R start done changes t s
  holds : ∀ change ∈ changes, change.Holds project R Later start t

theorem Traced.refl (grounded : start.Grounded project.root R) :
    Traced project R Later start [] [] start where
  started := grounded
  grounded := grounded
  descends := by simp
  recorded := by simp
  status _ := .same rfl
  holds := by simp

namespace Traced

section Step

variable (traced : Traced project R Later start done changes t)
  (apart : ∀ earlier ∈ done, earlier.Apart job)

include traced apart

theorem not_below_removed {path : Path} (h : ⟨.remove, path⟩ ∈ changes) :
    ¬ path.names <+: job.path.names := by
  obtain ⟨earlier, mem, rfl, mode⟩ := traced.recorded _ h
  rcases apart earlier mem with ⟨editing, -⟩ | ⟨-, below⟩
  · rw [editing] at mode
    cases mode
  · exact below (by simp [mode, Action.mode])

theorem not_below_edited (hmode : job.mode ≠ .editing) {change : Change} (h : change ∈ changes)
    (hchange : change.action.mode = .editing) : ¬ change.path.names <+: job.path.names := by
  obtain ⟨earlier, mem, same, mode⟩ := traced.recorded _ h
  rw [← same]
  rcases apart earlier mem with ⟨-, editing⟩ | ⟨-, below⟩
  · exact absurd editing hmode
  · exact below (by simp [mode, hchange])

/-- A job is not on the way to an earlier change, edits of index files apart. -/
theorem not_above {change : Change} (h : change ∈ changes)
    (hmode : job.mode ≠ .editing ∨ change.action.mode ≠ .editing) :
    ¬ job.path.names <+: change.path.names := by
  obtain ⟨earlier, mem, same, mode⟩ := traced.recorded _ h
  rw [← same]
  rcases apart earlier mem with ⟨editing, editing'⟩ | ⟨above, -⟩
  · rcases hmode with hmode | hmode
    · exact absurd editing' hmode
    · exact absurd (mode.symm.trans editing) hmode
  · exact above

omit traced in
theorem not_above_making {earlier : Job} (mem : earlier ∈ done) (making : earlier.mode = .making) :
    ¬ job.path.names <+: earlier.path.names := by
  rcases apart earlier mem with ⟨editing, -⟩ | ⟨above, -⟩
  · rw [making] at editing
    cases editing
  · exact above

/-- A route on the way along the names of a job that is free was free before the run. -/
theorem free_above {p : Route} (hp : p <+: job.path.names) (free : t.get? (R ++ p) = none) :
    start.get? (R ++ p) = none := by
  cases traced.status (R ++ p) with
  | same same => rw [← same, free]
  | grown _ _ _ _ _ gone _ => exact gone
  | created _ _ gone _ => exact gone
  | updated _ _ _ file =>
    rw [free] at file
    cases file
  | removed mem below _ =>
    rw [List.prefix_append_right_inj] at below
    exact absurd (below.trans hp) (traced.not_below_removed apart mem)

omit apart in
/-- What stands or is missing at the path of a change goes on doing so. -/
theorem exists?_eq (grounded : u.Grounded project.root R) {change : Change} (mem : change ∈ changes)
    (same : (u.get? (R ++ change.path.names)).isSome = (t.get? (R ++ change.path.names)).isSome) :
    project.exists? u change.path = project.exists? t change.path := by
  obtain ⟨earlier, earlier_mem, same_path, -⟩ := traced.recorded change mem
  have descends := traced.descends earlier earlier_mem
  rw [same_path] at descends
  exact traced.grounded.site.exists?_congr grounded.site descends same

/-- New directories and a new file leave every recorded change true. -/
theorem holds_of_growth (hmode : job.mode ≠ .editing) (grounded : u.Grounded project.root R)
    (growth : ∀ s, u.get? s = t.get? s ∨ (∃ p, p <+: job.path.names ∧ s = R ++ p) ∧ t.get? s = none)
    {change : Change} (mem : change ∈ changes) : change.Holds project R Later start u := by
  have before := traced.holds change mem
  have stays : ∀ s, (t.get? s).isSome → u.get? s = t.get? s := by
    intro s hs
    rcases growth s with same | ⟨-, free⟩
    · exact same
    · simp [free] at hs
  obtain ⟨action, path⟩ := change
  cases action with
  | create =>
    obtain ⟨gone, there⟩ := before
    exact ⟨gone, by rwa [stays _ there]⟩
  | update =>
    obtain ⟨old, new, was, is, later⟩ := before
    exact ⟨old, new, was, by rw [stays _ (by simp [is]), is], later⟩
  | remove =>
    obtain ⟨was, gone⟩ := before
    refine ⟨was, fun s below => ?_⟩
    rcases growth s with same | ⟨⟨p, hp, rfl⟩, -⟩
    · rw [same, gone s below]
    · rw [List.prefix_append_right_inj] at below
      exact absurd (below.trans hp) (traced.not_below_removed apart mem)
  | «exists» =>
    obtain ⟨was, is⟩ := before
    obtain ⟨earlier, earlier_mem, same_path, -⟩ := traced.recorded _ mem
    have descends := traced.descends earlier earlier_mem
    rw [same_path] at descends
    have there := traced.grounded.site.isSome_of_exists? descends is
    exact ⟨was, (traced.exists?_eq grounded mem (by rw [stays _ there])).trans is⟩
  | missing =>
    obtain ⟨was, is⟩ := before
    refine ⟨was, (traced.exists?_eq grounded mem ?_).trans is⟩
    rcases growth (R ++ path.names) with same | ⟨⟨p, hp, same⟩, -⟩
    · rw [same]
    · rw [← List.append_cancel_left same] at hp
      exact absurd hp (traced.not_below_edited apart hmode mem rfl)

omit apart in
/-- Another text in a file leaves every recorded change true. -/
theorem holds_of_edit (trans : ∀ a b c, Later a b → Later b c → Later a c)
    {r : Route} {old new : Text}
    (grounded : (t.set r (.file (.text new))).Grounded project.root R)
    (hold : t.get? r = some (.file (.text old))) (later : Later old new) {change : Change}
    (mem : change ∈ changes) :
    change.Holds project R Later start (t.set r (.file (.text new))) := by
  have before := traced.holds change mem
  have hr : r ≠ [] := by
    rintro rfl
    simp [get?] at hold
  have there : ∀ s, ((t.set r (.file (.text new))).get? s).isSome = (t.get? s).isSome := by
    intro s
    rw [get?_set t hr]
    split
    · rename_i same
      simp [same, hold]
    · rfl
  have found := traced.exists?_eq grounded mem (there _)
  obtain ⟨action, path⟩ := change
  cases action with
  | create =>
    obtain ⟨gone, is⟩ := before
    exact ⟨gone, by rwa [there]⟩
  | update =>
    obtain ⟨first, second, was, is, between⟩ := before
    by_cases same : R ++ path.names = r
    · obtain rfl : second = old := by simpa [same, hold] using is.symm
      refine ⟨first, new, was, ?_, trans _ _ _ between later⟩
      rw [get?_set t hr, if_pos same]
    · refine ⟨first, second, was, ?_, between⟩
      rw [get?_set t hr, if_neg same]
      exact is
  | remove =>
    obtain ⟨was, gone⟩ := before
    refine ⟨was, fun s below => ?_⟩
    rw [← Option.not_isSome_iff_eq_none, there, gone s below]
    simp
  | «exists» => exact ⟨before.1, found.trans before.2⟩
  | missing => exact ⟨before.1, found.trans before.2⟩

/-- A removal leaves every recorded change true. -/
theorem holds_of_removal (hmode : job.mode = .removing) (grounded : u.Grounded project.root R)
    (pruned : ∀ s, u.get? s = if R ++ job.path.names <+: s then none else t.get? s)
    {change : Change} (mem : change ∈ changes) : change.Holds project R Later start u := by
  have before := traced.holds change mem
  have aside : u.get? (R ++ change.path.names) = t.get? (R ++ change.path.names) := by
    rw [pruned, if_neg]
    rw [List.prefix_append_right_inj]
    exact traced.not_above apart mem (Or.inl (by simp [hmode]))
  have found := traced.exists?_eq grounded mem (by rw [aside])
  obtain ⟨action, path⟩ := change
  dsimp only at aside
  cases action with
  | create =>
    obtain ⟨was, is⟩ := before
    exact ⟨was, by rwa [aside]⟩
  | update =>
    obtain ⟨old, new, was, is, later⟩ := before
    exact ⟨old, new, was, aside.trans is, later⟩
  | remove =>
    obtain ⟨was, is⟩ := before
    refine ⟨was, fun s below => ?_⟩
    rw [pruned, is s below, ite_self]
  | «exists» => exact ⟨before.1, found.trans before.2⟩
  | missing => exact ⟨before.1, found.trans before.2⟩

/-- At the path of a job something stands if it did before the run. -/
theorem isSome_eq :
    (t.get? (R ++ job.path.names)).isSome = (start.get? (R ++ job.path.names)).isSome := by
  cases traced.status (R ++ job.path.names) with
  | same same => rw [same]
  | grown mem making _ hp same _ _ =>
    rw [← List.append_cancel_left same] at hp
    exact absurd hp (not_above_making apart mem making)
  | created mem same _ _ =>
    have names := List.append_cancel_left same
    have aside := traced.not_above apart mem (Or.inr (by simp [Action.mode]))
    rw [names] at aside
    exact absurd (List.prefix_refl _) aside
  | updated _ _ old new => rw [old, new]; rfl
  | removed mem below _ =>
    rw [List.prefix_append_right_inj] at below
    exact absurd below (traced.not_below_removed apart mem)

/-- The text that an edit finds is that from before the run, or a later one. -/
theorem text_edited {old : Text}
    (hold : t.get? (R ++ job.path.names) = some (.file (.text old))) :
    start.get? (R ++ job.path.names) = some (.file (.text old)) ∨
      ∃ first, start.get? (R ++ job.path.names) = some (.file (.text first)) ∧ Later first old := by
  have there := traced.isSome_eq apart
  cases traced.status (R ++ job.path.names) with
  | same same => exact Or.inl (same ▸ hold)
  | grown _ _ _ _ _ gone _ => simp [hold, gone] at there
  | created _ _ gone _ => simp [hold, gone] at there
  | updated mem same _ _ =>
    obtain ⟨first, second, was, is, later⟩ := traced.holds _ mem
    dsimp only at was is
    rw [← same] at was is
    obtain rfl : second = old := by simpa [hold] using is.symm
    exact Or.inr ⟨first, was, later⟩
  | removed _ _ gone => simp [hold] at gone

omit apart in
theorem append (grounded : u.Grounded project.root R) (descends : job.path.Descends job.path.names)
    (records : ∀ change ∈ added, job.path = change.path ∧ job.mode = change.action.mode)
    (status : ∀ s, Status R start (done ++ [job]) (changes ++ added) u s)
    (kept : ∀ change ∈ changes, change.Holds project R Later start u)
    (new : ∀ change ∈ added, change.Holds project R Later start u) :
    Traced project R Later start (done ++ [job]) (changes ++ added) u where
  started := traced.started
  grounded := grounded
  descends := by
    intro other mem
    rcases List.mem_append.1 mem with mem | mem
    · exact traced.descends other mem
    · rwa [List.mem_singleton.1 mem]
  recorded := by
    intro change mem
    rcases List.mem_append.1 mem with mem | mem
    · obtain ⟨earlier, mem, same⟩ := traced.recorded change mem
      exact ⟨earlier, List.mem_append_left _ mem, same⟩
    · exact ⟨job, by simp, records change mem⟩
  status := status
  holds := by
    intro change mem
    rcases List.mem_append.1 mem with mem | mem
    · exact kept change mem
    · exact new change mem

omit apart in
/-- The account goes on over a job that changes nothing. -/
theorem append_idle (descends : job.path.Descends job.path.names)
    (records : ∀ change ∈ added, job.path = change.path ∧ job.mode = change.action.mode)
    (new : ∀ change ∈ added, change.Holds project R Later start t) :
    Traced project R Later start (done ++ [job]) (changes ++ added) t :=
  traced.append traced.grounded descends records (fun s => (traced.status s).keep rfl job added)
    traced.holds new

theorem exists?_start (descends : job.path.Descends job.path.names) :
    project.exists? start job.path = project.exists? t job.path :=
  traced.grounded.site.exists?_congr traced.started.site descends (traced.isSome_eq apart).symm

theorem status_of_newDir (making : job.mode = .making) {s : Route}
    (h : u.get? s = t.get? s ∨ Job.NewDir R job.path.names t u s) :
    Status R start (done ++ [job]) (changes ++ added) u s := by
  rcases h with same | ⟨⟨p, hne, hp, rfl⟩, gone, dir⟩
  · exact (traced.status s).keep same _ _
  · exact .grown (List.mem_append_right _ (by simp)) making hne hp rfl
      (traced.free_above apart hp gone) dir

/-- The account goes on over new directories that a job has left when it broke off. -/
theorem append_brokenOff (grounded : u.Grounded project.root R)
    (descends : job.path.Descends job.path.names) (making : job.mode = .making)
    (grown : Grown R job.path.names t u) :
    Traced project R Later start (done ++ [job]) (changes ++ []) u := by
  refine traced.append grounded descends (by simp)
    (fun s => traced.status_of_newDir apart making (grown s)) (fun change mem => ?_) (by simp)
  refine traced.holds_of_growth apart (by simp [making]) grounded (fun s => ?_) mem
  exact (grown s).imp_right Job.NewDir.free

/-- The account goes on over a new file or directory and the directories on the way to it. -/
theorem append_made (grounded : u.Grounded project.root R)
    (descends : job.path.Descends job.path.names) (making : job.mode = .making)
    (free : t.get? (R ++ job.path.names) = none) (there : (u.get? (R ++ job.path.names)).isSome)
    (others : ∀ s, s ≠ R ++ job.path.names →
      u.get? s = t.get? s ∨ Job.NewDir R job.path.names t u s) :
    Traced project R Later start (done ++ [job]) (changes ++ [⟨.create, job.path⟩]) u := by
  have new := traced.free_above apart (List.prefix_refl _) free
  refine traced.append grounded descends (by simp [making, Action.mode]) (fun s => ?_)
    (fun change mem => ?_) (by simpa [Change.Holds, there] using new)
  · by_cases hs : s = R ++ job.path.names
    · subst hs
      obtain ⟨node, hnode⟩ := Option.isSome_iff_exists.1 there
      cases node with
      | dir =>
        exact .grown (List.mem_append_right _ (by simp)) making descends.ne_nil
          (List.prefix_refl _) rfl new hnode
      | file content => exact .created (List.mem_append_right _ (by simp)) rfl new hnode
      | link target => exact absurd hnode (grounded.plain.no_link _ target)
    · exact traced.status_of_newDir apart making (others s hs)
  · refine traced.holds_of_growth apart (by simp [making]) grounded (fun s => ?_) mem
    by_cases hs : s = R ++ job.path.names
    · exact Or.inr ⟨⟨_, List.prefix_refl _, hs⟩, hs ▸ free⟩
    · exact (others s hs).imp_right Job.NewDir.free

/-- The account goes on over another text in a file. -/
theorem append_edited (trans : ∀ a b c, Later a b → Later b c → Later a c) {old new : Text}
    (grounded : (t.set (R ++ job.path.names) (.file (.text new))).Grounded project.root R)
    (descends : job.path.Descends job.path.names) (editing : job.mode = .editing)
    (hold : t.get? (R ++ job.path.names) = some (.file (.text old))) (later : Later old new) :
    Traced project R Later start (done ++ [job]) (changes ++ [⟨.update, job.path⟩])
      (t.set (R ++ job.path.names) (.file (.text new))) := by
  have hr : R ++ job.path.names ≠ [] := by simp [descends.ne_nil]
  have now : (t.set (R ++ job.path.names) (.file (.text new))).get? (R ++ job.path.names) =
      some (.file (.text new)) := by rw [get?_set t hr, if_pos rfl]
  obtain ⟨first, was, between⟩ : ∃ first,
      start.get? (R ++ job.path.names) = some (.file (.text first)) ∧ Later first new := by
    rcases traced.text_edited apart hold with was | ⟨first, was, earlier⟩
    · exact ⟨old, was, later⟩
    · exact ⟨first, was, trans _ _ _ earlier later⟩
  refine traced.append grounded descends (by simp [editing, Action.mode]) (fun s => ?_)
    (fun change mem => traced.holds_of_edit trans grounded hold later mem) ?_
  · by_cases hs : s = R ++ job.path.names
    · subst hs
      exact .updated (List.mem_append_right _ (by simp)) rfl was now
    · exact (traced.status s).keep (by rw [get?_set t hr, if_neg hs]) _ _
  · simpa [Change.Holds, now] using ⟨first, was, between⟩

/-- The account goes on over a removal. -/
theorem append_removed (grounded : u.Grounded project.root R)
    (descends : job.path.Descends job.path.names) (removing : job.mode = .removing)
    (there : (t.get? (R ++ job.path.names)).isSome)
    (pruned : ∀ s, u.get? s = if R ++ job.path.names <+: s then none else t.get? s) :
    Traced project R Later start (done ++ [job]) (changes ++ [⟨.remove, job.path⟩]) u := by
  have same := traced.isSome_eq apart
  have gone : ∀ s, R ++ job.path.names <+: s → u.get? s = none := fun s below => by
    rw [pruned, if_pos below]
  refine traced.append grounded descends (by simp [removing, Action.mode]) (fun s => ?_)
    (fun change mem => traced.holds_of_removal apart removing grounded pruned mem) ?_
  · by_cases below : R ++ job.path.names <+: s
    · exact .removed (List.mem_append_right _ (by simp)) below (gone s below)
    · exact (traced.status s).keep (by rw [pruned, if_neg below]) _ _
  · simpa [Change.Holds, ← same, there] using gone

/-- The account goes on over a job that is apart from those before it. -/
theorem step (trans : ∀ a b c, Later a b → Later b c → Later a c)
    (grounded : u.Grounded project.root R) (descends : job.path.Descends job.path.names)
    (shift : job.Shift project R Later t added u) :
    Traced project R Later start (done ++ [job]) (changes ++ added) u := by
  cases shift with
  | rest => exact traced.append_idle descends (by simp) (by simp)
  | found making there =>
    refine traced.append_idle descends (by simp [making, Action.mode])
      (List.forall_mem_singleton.2 ⟨?_, there⟩)
    rwa [traced.exists?_start apart descends]
  | lacking editing missing =>
    refine traced.append_idle descends (by simp [editing, Action.mode])
      (List.forall_mem_singleton.2 ⟨?_, missing⟩)
    rwa [traced.exists?_start apart descends]
  | brokenOff making grown => exact traced.append_brokenOff apart grounded descends making grown
  | made making free there others =>
    exact traced.append_made apart grounded descends making free there others
  | edited editing hold later =>
    exact traced.append_edited apart trans grounded descends editing hold later
  | removed removing there pruned =>
    exact traced.append_removed apart grounded descends removing there pruned

end Step

theorem mono {more : List Job} (traced : Traced project R Later start done changes t)
    (descends : ∀ job ∈ more, job.path.Descends job.path.names) :
    Traced project R Later start (done ++ more) changes t where
  started := traced.started
  grounded := traced.grounded
  descends := by
    intro job mem
    rcases List.mem_append.1 mem with mem | mem
    · exact traced.descends job mem
    · exact descends job mem
  recorded := by
    intro change mem
    obtain ⟨earlier, mem, same⟩ := traced.recorded change mem
    exact ⟨earlier, List.mem_append_left _ mem, same⟩
  status s := by
    cases traced.status s with
    | same same => exact .same same
    | grown mem making hne hp hs gone dir =>
      exact .grown (List.mem_append_left _ mem) making hne hp hs gone dir
    | created mem hs gone file => exact .created mem hs gone file
    | updated mem hs old new => exact .updated mem hs old new
    | removed mem hs gone => exact .removed mem hs gone
  holds := traced.holds

/-- The account goes on over the outcome of a job. -/
theorem next {failure : Option Failure} (trans : ∀ a b c, Later a b → Later b c → Later a c)
    (traced : Traced project R Later start done changes t)
    (apart : ∀ earlier ∈ done, earlier.Apart job) (descends : job.path.Descends job.path.names)
    (advances : job.Advances Later) (outcome : job.Outcome project t added failure u) :
    Traced project R Later start (done ++ [job]) (changes ++ added) u := by
  obtain ⟨shift, grounded⟩ := outcome.shift traced.grounded descends advances
  exact traced.step apart trans grounded descends shift

/-- The account goes on over a run of jobs, broken off or not. -/
theorem run {jobs : List Job} {failure : Option Failure}
    (trans : ∀ a b c, Later a b → Later b c → Later a c)
    (traced : Traced project R Later start done changes t)
    (apart : ∀ earlier ∈ done, ∀ later ∈ jobs, earlier.Apart later)
    (pairwise : jobs.Pairwise Job.Apart)
    (descends : ∀ job ∈ jobs, job.path.Descends job.path.names)
    (advances : ∀ job ∈ jobs, job.Advances Later)
    (h : project.Performs t jobs added failure u) :
    Traced project R Later start (done ++ jobs) (changes ++ added) u := by
  induction h generalizing done changes with
  | nil t => simpa using traced
  | @step t mid u job more added later failure outcome _ ih =>
    obtain ⟨apart_more, pairwise⟩ := List.pairwise_cons.1 pairwise
    have first := traced.next trans (fun earlier mem => apart earlier mem job List.mem_cons_self)
      (descends job List.mem_cons_self) (advances job List.mem_cons_self) outcome
    have all := ih first (fun earlier mem other mem' => ?_) pairwise
      (fun other mem => descends other (List.mem_cons_of_mem _ mem))
      (fun other mem => advances other (List.mem_cons_of_mem _ mem))
    · simpa using all
    · rcases List.mem_append.1 mem with mem | mem
      · exact apart earlier mem other (List.mem_cons_of_mem _ mem')
      · rw [List.mem_singleton.1 mem]
        exact apart_more other mem'
  | @stop t u job more added failure outcome =>
    have last := traced.next trans (fun earlier mem => apart earlier mem job List.mem_cons_self)
      (descends job List.mem_cons_self) (advances job List.mem_cons_self) outcome
    have all := last.mono fun other mem => descends other (List.mem_cons_of_mem job mem)
    simpa using all

end Traced

end ComponentForge

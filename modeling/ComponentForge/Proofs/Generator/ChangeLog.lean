import ComponentForge.Proofs.Generator.PlanOrder
import ComponentForge.Proofs.Generator.Restoration

/-!
# What the change log tells

The entries that a call adds to the log are an account of how it changed the tree. Since a call is
apart from itself, and its edits of one file never cancel out, the account is exact: the entries name
the files that appear, change and disappear, and no others.
-/

namespace ComponentForge

open Access Layout ComponentForge.Tree

/-- The entries are the difference between the trees. -/
structure Explains (root : Path) (R : Route) (start : Tree) (entries : List Change) (t : Tree) :
    Prop where
  descends : ∀ change ∈ entries, change.path.Descends change.path.names
  /-- A file is new where an entry has made one. -/
  appears : ∀ r content, t.get? r = some (.file content) →
    ((∀ old, start.get? r ≠ some (.file old)) ↔
      ∃ path, ⟨.create, path⟩ ∈ entries ∧ r = R ++ path.names)
  /-- An entry that does not make a file makes a directory. -/
  creates : ∀ path, ⟨.create, path⟩ ∈ entries → start.get? (R ++ path.names) = none ∧
    (t.get? (R ++ path.names) = some .dir ∨ ∃ content, t.get? (R ++ path.names) = some (.file content))
  /-- The content of a file is another one where an entry has updated it. -/
  changes : ∀ r, (∃ old new, start.get? r = some (.file old) ∧ t.get? r = some (.file new) ∧ old ≠ new) ↔
    ∃ path, ⟨.update, path⟩ ∈ entries ∧ r = R ++ path.names
  /-- A file is gone where an entry has removed it or a directory above it. -/
  disappears : ∀ r content, start.get? r = some (.file content) →
    ((∀ new, t.get? r ≠ some (.file new)) ↔
      ∃ path, ⟨.remove, path⟩ ∈ entries ∧ R ++ path.names <+: r)
  stands : ∀ path, ⟨.exists, path⟩ ∈ entries →
    (Access.exists? start (root.join path) ∧ (start.get? (R ++ path.names)).isSome) ∧
      Access.exists? t (root.join path) ∧ (t.get? (R ++ path.names)).isSome
  /-- What is missing is not found, and unless its path is too long nothing is there. -/
  lacks : ∀ path, ⟨.missing, path⟩ ∈ entries →
    (Access.exists? start (root.join path) = false ∧ Access.exists? t (root.join path) = false) ∧
      ((root.join path).Fits →
        start.get? (R ++ path.names) = none ∧ t.get? (R ++ path.names) = none)

namespace Traced

variable {project : Project} {R : Route} {Later : Text → Text → Prop} {start t : Tree}
  {done : List Job} {changes : List Change}

/-- A file is new exactly where an entry has made one. -/
theorem appears_iff (traced : Traced project R Later start done changes t) {r : Route}
    {content : Content} (hfile : t.get? r = some (.file content)) :
    (∀ old, start.get? r ≠ some (.file old)) ↔
      ∃ path, ⟨.create, path⟩ ∈ changes ∧ r = R ++ path.names := by
  constructor
  · intro new
    cases traced.status r with
    | same same => exact absurd (same ▸ hfile) (new content)
    | grown _ _ _ _ _ _ dir =>
      rw [dir] at hfile
      cases hfile
    | @created path _ mem route _ _ => exact ⟨path, mem, route⟩
    | updated _ _ old _ => exact absurd old (new _)
    | removed _ _ gone =>
      rw [gone] at hfile
      cases hfile
  · rintro ⟨path, mem, rfl⟩ old hold
    have gone := (traced.holds _ mem).1
    rw [hold] at gone
    cases gone

/-- An entry that makes something finds its place free and leaves a file or a directory there. -/
theorem made_of_create (traced : Traced project R Later start done changes t) {path : Path}
    (mem : ⟨.create, path⟩ ∈ changes) : start.get? (R ++ path.names) = none ∧
      (t.get? (R ++ path.names) = some .dir ∨
        ∃ content, t.get? (R ++ path.names) = some (.file content)) := by
  obtain ⟨gone, there⟩ := traced.holds _ mem
  refine ⟨gone, ?_⟩
  dsimp only at there
  obtain ⟨node, hnode⟩ := Option.isSome_iff_exists.1 there
  cases node with
  | dir => exact Or.inl hnode
  | file content => exact Or.inr ⟨content, hnode⟩
  | link target => exact absurd hnode (traced.grounded.plain.no_link _ target)

/-- Where no edit leads back, the content of a file is another one exactly where an entry has updated
it. -/
theorem changes_iff (traced : Traced project R Later start done changes t)
    (ne : ∀ {old new}, Later old new → old ≠ new) {r : Route} :
    (∃ old new, start.get? r = some (.file old) ∧ t.get? r = some (.file new) ∧ old ≠ new) ↔
      ∃ path, ⟨.update, path⟩ ∈ changes ∧ r = R ++ path.names := by
  constructor
  · rintro ⟨old, new, hold, hnew, differ⟩
    cases traced.status r with
    | same same => exact absurd (by simpa [same, hold] using hnew) differ
    | grown _ _ _ _ _ gone _ => simp [gone] at hold
    | created _ _ gone _ => simp [gone] at hold
    | @updated path _ _ mem route _ _ => exact ⟨path, mem, route⟩
    | removed _ _ gone => simp [gone] at hnew
  · rintro ⟨path, mem, rfl⟩
    obtain ⟨old, new, hold, hnew, later⟩ := traced.holds _ mem
    exact ⟨_, _, hold, hnew, fun same => ne later (Content.text.inj same)⟩

/-- A file is gone exactly where an entry has removed it or a directory above it. -/
theorem disappears_iff (traced : Traced project R Later start done changes t) {r : Route}
    {content : Content} (hfile : start.get? r = some (.file content)) :
    (∀ new, t.get? r ≠ some (.file new)) ↔
      ∃ path, ⟨.remove, path⟩ ∈ changes ∧ R ++ path.names <+: r := by
  constructor
  · intro gone
    cases traced.status r with
    | same same => exact absurd (same.trans hfile) (gone content)
    | grown _ _ _ _ _ free _ => simp [free] at hfile
    | created _ _ free _ => simp [free] at hfile
    | updated _ _ _ new => exact absurd new (gone _)
    | @removed path mem below _ => exact ⟨path, mem, below⟩
  · rintro ⟨path, mem, below⟩ new hnew
    have gone := (traced.holds _ mem).2 r below
    rw [gone] at hnew
    cases hnew

/-- The path of an entry descends by its names, as that of its job does. -/
theorem descends_of_mem (traced : Traced project R Later start done changes t) {change : Change}
    (mem : change ∈ changes) : change.path.Descends change.path.names := by
  obtain ⟨job, hjob, same, -⟩ := traced.recorded change mem
  exact same ▸ traced.descends job hjob

/-- An account in which no edit leads back explains the difference between the trees. -/
theorem explains (traced : Traced project R Later start done changes t)
    (ne : ∀ {old new}, Later old new → old ≠ new) : Explains project.root R start changes t where
  descends _ mem := traced.descends_of_mem mem
  appears _ _ hfile := traced.appears_iff hfile
  creates _ mem := traced.made_of_create mem
  changes _ := traced.changes_iff ne
  disappears _ _ hfile := traced.disappears_iff hfile
  stands path mem := by
    obtain ⟨was, is⟩ := traced.holds _ mem
    have down := traced.descends_of_mem mem
    exact ⟨⟨was, traced.started.site.isSome_of_exists? down was⟩, is,
      traced.grounded.site.isSome_of_exists? down is⟩
  lacks path mem := by
    obtain ⟨was, is⟩ := traced.holds _ mem
    have down := traced.descends_of_mem mem
    exact ⟨⟨was, is⟩, fun fits => ⟨traced.started.site.free_of_missing down fits was,
      traced.grounded.site.free_of_missing down fits is⟩⟩

end Traced

namespace Call

variable {root : Path} {R : Route} {tree : Tree}

/-- Every call has an account, of its plan or of nothing. -/
theorem exists_traced (call : Call) (grounded : tree.Grounded root R)
    (inside : Inside call.config.modulesPath) (log : List Change) :
    ∃ jobs added, (jobs = [] ∨ call.Plan jobs) ∧
      (call.after root ⟨tree, log⟩).log = log ++ added ∧
      Traced ⟨root, call.config⟩ R call.Later tree jobs added (call.after root ⟨tree, log⟩).tree := by
  have start : Traced ⟨root, call.config⟩ R call.Later tree [] [] tree := .refl grounded
  rcases call.run_cases root tree with ⟨failure, failed⟩ | ⟨jobs, plan, performed⟩
  · refine ⟨[], [], Or.inl rfl, ?_⟩
    rw [after, failed]
    exact ⟨(List.append_nil log).symm, start⟩
  · have orderly := plan.orderly inside
    obtain ⟨added, failure, u, performs⟩ := Project.exists_performs ⟨root, call.config⟩ tree jobs
    refine ⟨jobs, added, Or.inr plan, ?_⟩
    have traced := start.run (Later.trans call) (by simp) orderly.apart orderly.descends
      orderly.advances performs
    rw [after, performed, performs.run_eq]
    cases failure <;> exact ⟨rfl, traced⟩

/-- The entries that a call adds to the log explain how it changed the tree. -/
theorem explains_after (call : Call) (grounded : tree.Grounded root R)
    (inside : Inside call.config.modulesPath) (log : List Change) :
    ∃ added, (call.after root ⟨tree, log⟩).log = log ++ added ∧
      Explains root R tree added (call.after root ⟨tree, log⟩).tree := by
  obtain ⟨jobs, added, -, appended, traced⟩ := call.exists_traced grounded inside log
  exact ⟨added, appended, traced.explains Later.ne⟩

end Call

theorem grounded_coreTree : coreTree.Grounded (.ofString ".") [] :=
  ⟨plain_coreTree, .stay (.nil [])⟩

/-- A container in the module with an index file, with all that may come with it. -/
def coreCall : Call :=
  .generate testedConfig .container "core:post".toList true

theorem Call.explains_after_coreCall : coreTree.Grounded (.ofString ".") [] ∧
    Inside coreCall.config.modulesPath ∧
    ⟨.update, indexPath testedConfig "core".toList⟩ ∈
      (coreCall.after (.ofString ".") ⟨coreTree, []⟩).log ∧
    ∃ added, (coreCall.after (.ofString ".") ⟨coreTree, []⟩).log = [] ++ added ∧
      Explains (.ofString ".") [] coreTree added (coreCall.after (.ofString ".") ⟨coreTree, []⟩).tree :=
  ⟨grounded_coreTree, inside_default, by decide +kernel,
    Call.explains_after coreCall grounded_coreTree inside_default []⟩

end ComponentForge

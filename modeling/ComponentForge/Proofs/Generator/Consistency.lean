import ComponentForge.Proofs.Generator.IndexLists
import ComponentForge.Proofs.Index.Bindings

/-!
# Consistent index files

Imports are told apart by their whole lines and entries by their identifiers alone, so two entities
with one identifier share an entry, and destroying one of them takes it from the other. As long as no
call meets an import line of another entity with its identifier, every index file binds what it
lists.
-/

namespace ComponentForge

open Access Index Layout Names ComponentForge.Tree

/-- The import line of the patch binds what its entry lists. -/
def IndexPatch.Binds (patch : IndexPatch) : Prop :=
  ∀ entry ∈ patch.exportEntry, boundName patch.importLine = entry.identifier

/-- No other import line binds the identifier of the patch. -/
def IndexPatch.Owns (patch : IndexPatch) (imports : List Text) : Prop :=
  ∀ line ∈ imports, boundName line = boundName patch.importLine → line = patch.importLine

instance (patch : IndexPatch) (imports : List Text) : Decidable (patch.Owns imports) :=
  inferInstanceAs (Decidable (∀ line ∈ imports, _ → _))

namespace Names.Worded

variable {names : Names}

theorem boundName_componentPatch (worded : names.Worded) :
    boundName names.componentPatch.importLine = names.componentName := by
  rw [componentPatch_eq]
  exact boundName_importOf worded.componentName (by decide)

theorem boundName_containerPatch (worded : names.Worded) :
    boundName names.containerPatch.importLine = names.containerName := by
  rw [containerPatch_eq]
  exact boundName_importOf worded.containerName (by decide)

theorem binds_componentPatch (worded : names.Worded) : names.componentPatch.Binds := by
  intro entry hentry
  rw [worded.boundName_componentPatch]
  rw [componentPatch_eq] at hentry
  exact (Option.some.inj hentry) ▸ rfl

theorem binds_containerPatch (worded : names.Worded) : names.containerPatch.Binds := by
  intro entry hentry
  rw [worded.boundName_containerPatch]
  rw [containerPatch_eq] at hentry
  exact (Option.some.inj hentry) ▸ rfl

end Names.Worded

section Lists

variable {imports : List Text} {line : Text}

/-- A line that owns its identifier binds it first. -/
theorem boundName_notMem (owns : ∀ other ∈ imports, boundName other = boundName line → other = line)
    (new : line ∉ imports) : boundName line ∉ imports.map boundName := by
  intro bound
  obtain ⟨other, hother, same⟩ := List.mem_map.1 bound
  exact new (owns other hother same ▸ hother)

theorem map_boundName_appendNew (owns : ∀ other ∈ imports, boundName other = boundName line →
    other = line) : (appendNew imports line).map boundName =
      appendNew (imports.map boundName) (boundName line) := by
  by_cases hmem : line ∈ imports
  · rw [appendNew_of_mem hmem, appendNew_of_mem (List.mem_map_of_mem hmem)]
  · rw [appendNew_of_notMem hmem, appendNew_of_notMem (boundName_notMem owns hmem), List.map_append,
      List.map_singleton]

theorem map_boundName_erase (owns : ∀ other ∈ imports, boundName other = boundName line →
    other = line) :
    (imports.erase line).map boundName = (imports.map boundName).erase (boundName line) := by
  by_cases hmem : line ∈ imports
  · obtain ⟨before, after, rfl, hbefore⟩ := List.eq_append_cons_of_mem hmem
    have absent := boundName_notMem (fun other hother => owns other (List.mem_append_left _ hother))
      hbefore
    rw [erase_append_cons hbefore, List.map_append, List.map_append, List.map_cons,
      erase_append_cons absent]
  · rw [List.erase_of_not_mem hmem, List.erase_of_not_mem (boundName_notMem owns hmem)]

end Lists

/-- The import lines bind the listed identifiers, and those of the patches belong to the patches. -/
structure Barrel.Settled (patches : List IndexPatch) (barrel : Barrel) : Prop where
  bound : barrel.imports.map boundName = barrel.identifiers
  owned : ∀ patch ∈ patches, patch.Owns barrel.imports

/-- Patches with different identifiers leave each other alone. -/
theorem IndexPatch.respects_settled {patches : List IndexPatch} {patch : IndexPatch}
    (hpatch : patch ∈ patches) (binds : patch.Binds)
    (apart : ∀ other ∈ patches, boundName patch.importLine = boundName other.importLine →
      patch.importLine = other.importLine) : patch.Respects (Barrel.Settled patches) where
  add := by
    rintro line x rfl hline hx barrel settled
    have owns := settled.owned _ hpatch
    have identifier : boundName line = x := binds (entry x) rfl
    constructor
    · simp only [Barrel.add]
      rw [map_boundName_appendNew owns, identifier, settled.bound]
    · intro other hother inside hinside same
      rcases mem_appendNew.1 hinside with hinside | rfl
      · exact settled.owned other hother inside hinside same
      · exact apart other hother same
  remove := by
    rintro line x rfl barrel settled
    have owns := settled.owned _ hpatch
    have identifier : boundName line = x := binds (entry x) rfl
    constructor
    · simp only [Barrel.remove]
      rw [map_boundName_erase owns, identifier, settled.bound]
    · intro other hother inside hinside same
      exact settled.owned other hother inside (List.mem_of_mem_erase hinside) same

namespace Call

/-- No import line of another entity binds an identifier of the call in the index file of its
module. -/
def Unclashed (R : Route) (s : Session) (call : Call) : Prop :=
  ∀ names : Names, names.Accepted call.config call.raw → ∀ text,
    s.tree.get? (R ++ (modulesRoute call.config.modulesPath ++ names.moduleDir :: indexTail)) =
      some (.file (.text text)) →
    ∀ patch ∈ call.patches names, patch.Owns (importLines text)

/-- Each call is without a clash when its turn comes. -/
def AllUnclashed (root : Path) (R : Route) : Session → List Call → Prop
  | _, [] => True
  | s, call :: rest => call.Unclashed R s ∧ AllUnclashed root R (call.after root s) rest

variable {start : Tree} {root : Path} {R : Route} {modulesPath : Text} {call : Call} {s : Session}

theorem binds_patches {names : Names} (worded : names.Worded) :
    ∀ patch ∈ call.patches names, patch.Binds := by
  intro patch hpatch
  rcases eq_of_mem_modulePatches hpatch with rfl | rfl
  · exact worded.binds_componentPatch
  · exact worded.binds_containerPatch

/-- The patches of a call have different identifiers. -/
theorem apart_patches {names : Names} {config : Config} {raw : Text}
    (accepted : names.Accepted config raw) :
    ∀ patch ∈ call.patches names, ∀ other ∈ call.patches names,
      boundName patch.importLine = boundName other.importLine →
        patch.importLine = other.importLine := by
  have component := accepted.worded.boundName_componentPatch
  have container := accepted.worded.boundName_containerPatch
  have differ := accepted.containerName_ne
  intro patch hpatch other hother same
  rcases eq_of_mem_modulePatches hpatch with rfl | rfl <;>
    rcases eq_of_mem_modulePatches hother with rfl | rfl
  · rfl
  · exact absurd (container.symm.trans (same.symm.trans component)) differ
  · exact absurd (container.symm.trans (same.trans component)) differ
  · rfl

/-- While the call runs, the barrel of its module is settled for its patches. -/
structure SettledAt (call : Call) (m : Text) (barrel : Barrel) : Prop where
  bound : barrel.imports.map boundName = barrel.identifiers
  settled : ∀ names : Names, names.Accepted call.config call.raw → names.moduleDir = m →
    barrel.Settled (call.patches names)

theorem respects_settledAt {names : Names} (accepted : names.Accepted call.config call.raw)
    {patch : IndexPatch} (hpatch : patch ∈ call.patches names) :
    patch.Respects (call.SettledAt names.moduleDir) := by
  have respects := IndexPatch.respects_settled hpatch (binds_patches accepted.worded patch hpatch)
    (apart_patches accepted patch hpatch)
  have settle : ∀ {barrel : Barrel}, barrel.Settled (call.patches names) →
      call.SettledAt names.moduleDir barrel := by
    intro barrel settled
    refine ⟨settled.bound, fun others hothers _ => ?_⟩
    rwa [hothers.eq accepted]
  constructor
  · intro line x built hline hx barrel settled
    exact settle (respects.add built hline hx barrel (settled.settled names accepted rfl))
  · intro line x built barrel settled
    exact settle (respects.remove built barrel (settled.settled names accepted rfl))

/-- One call that meets no clash. -/
theorem bound_after (empty : EmptySite start root R) (inside : Inside call.config.modulesPath)
    (unclashed : call.Unclashed R s)
    (gathered : Gathered start R call.config.modulesPath
      (fun _ barrel => barrel.imports.map boundName = barrel.identifiers) s.tree) :
    Gathered start R call.config.modulesPath
      (fun _ barrel => barrel.imports.map boundName = barrel.identifiers)
      (call.after root s).tree := by
  have settled : Gathered start R call.config.modulesPath call.SettledAt s.tree := by
    refine ⟨gathered.plain, gathered.kept, fun m node hnode => ?_, gathered.stories⟩
    obtain ⟨barrel, rfl, bound⟩ := gathered.barrels m node hnode
    refine ⟨barrel, rfl, bound, fun names accepted hm => ⟨bound, fun patch hpatch => ?_⟩⟩
    subst hm
    have owns := unclashed names accepted barrel.text hnode patch hpatch
    rwa [barrel.importLines_text] at owns
  have fresh : ∀ m, call.SettledAt m Barrel.empty := by
    intro m
    refine ⟨rfl, fun names _ _ => ⟨rfl, fun patch _ line hline => ?_⟩⟩
    simp [Barrel.empty] at hline
  have after := gathered_after empty inside fresh
    (fun names accepted patch hpatch => respects_settledAt accepted hpatch) settled
  refine ⟨after.plain, after.kept, fun m node hnode => ?_, after.stories⟩
  obtain ⟨barrel, rfl, there⟩ := after.barrels m node hnode
  exact ⟨barrel, rfl, there.bound⟩

theorem bound_afterAll (empty : EmptySite start root R) (inside : Inside modulesPath)
    {calls : List Call} (fixed : ∀ call ∈ calls, call.config.modulesPath = modulesPath)
    (unclashed : AllUnclashed root R s calls)
    (gathered : Gathered start R modulesPath
      (fun _ barrel => barrel.imports.map boundName = barrel.identifiers) s.tree) :
    Gathered start R modulesPath (fun _ barrel => barrel.imports.map boundName = barrel.identifiers)
      (afterAll root s calls).tree := by
  induction calls generalizing s with
  | nil => exact gathered
  | cons call rest ih =>
    obtain rfl := fixed call List.mem_cons_self
    obtain ⟨first, others⟩ := unclashed
    exact ih (fun other hother => fixed other (List.mem_cons_of_mem call hother)) others
      (bound_after empty inside first gathered)

theorem unclashed_of {names : Names} (accepted : names.Accepted call.config call.raw) (text : Text)
    (there : s.tree.get? (R ++ (modulesRoute call.config.modulesPath ++ names.moduleDir :: indexTail)) =
      some (.file (.text text)))
    (owns : ∀ patch ∈ call.patches names, patch.Owns (importLines text)) : call.Unclashed R s := by
  intro others hothers other hother
  obtain rfl := hothers.eq accepted
  rw [there] at hother
  obtain rfl : text = other := by simpa using hother
  exact owns

/-- If no call of a run meets a clash, every index file of a module binds what it lists. -/
theorem consistent_afterAll (empty : EmptySite start root R) (inside : Inside modulesPath)
    {calls : List Call} (fixed : ∀ call ∈ calls, call.config.modulesPath = modulesPath)
    (log : List Change) (unclashed : AllUnclashed root R ⟨start, log⟩ calls) :
    ∀ m node, (afterAll root ⟨start, log⟩ calls).tree.get?
        (R ++ (modulesRoute modulesPath ++ m :: indexTail)) = some node →
      ∃ text, node = .file (.text text) ∧ Consistent text := by
  intro m node hnode
  have gathered := bound_afterAll empty inside fixed unclashed empty.gathered
  obtain ⟨barrel, rfl, bound⟩ := gathered.barrels m node hnode
  exact ⟨barrel.text, rfl, barrel.consistent_text bound⟩

theorem consistent_postCalls :
    (∀ m node, (afterAll (.ofString ".") ⟨Tree.empty, []⟩ postCalls).tree.get?
        ([] ++ (modulesRoute Config.default.modulesPath ++ m :: indexTail)) = some node →
      ∃ text, node = .file (.text text) ∧ Consistent text) ∧
    (afterAll (.ofString ".") ⟨Tree.empty, []⟩ postCalls).tree.get?
        ([] ++ (modulesRoute Config.default.modulesPath ++ "core".toList :: indexTail)) =
      some (.file (.text ("import PostContainer from './containers/post_container';\n".toList ++
        "export \x7b\n  PostContainer\n\x7d;\n".toList))) := by
  have post : (Names.derive snakeConfig "core".toList "post".toList).Accepted snakeConfig
      "core:post".toList :=
    ⟨⟨"core:post".toList, some "core".toList, "post".toList⟩, "core".toList, "core".toList,
      by decide +kernel, rfl, by decide +kernel, by decide +kernel, rfl⟩
  refine ⟨consistent_afterAll emptySite_empty inside_default (by decide) [] ⟨?_, ?_, ?_, trivial⟩,
    by decide +kernel⟩
  · exact fun _ _ _ _ patch hpatch => absurd hpatch List.not_mem_nil
  · exact unclashed_of post "export \x7b\n\x7d;\n".toList (by decide +kernel) (by decide +kernel)
  · exact unclashed_of post ("import PostContainer from './containers/post_container';\n".toList ++
      "import Post from './components/post';\n".toList ++
      "export \x7b\n  PostContainer,\n  Post\n\x7d;\n".toList)
      (by decide +kernel) (by decide +kernel)

/-- A component with the identifier of a container takes the entry of the container. -/
def clashCalls : List Call :=
  [ .generate indexedConfig .module "core".toList false,
    .generate indexedConfig .container "core:post".toList false,
    .destroy indexedConfig .component "core:postContainer".toList ]

theorem inconsistent_clashCalls :
    ¬ ∀ m node, (afterAll (.ofString ".") ⟨Tree.empty, []⟩ clashCalls).tree.get?
        (modulesRoute Config.default.modulesPath ++ m :: indexTail) = some node →
      ∃ text, node = .file (.text text) ∧ Consistent text := by
  intro consistent
  have there : (afterAll (.ofString ".") ⟨Tree.empty, []⟩ clashCalls).tree.get?
      (modulesRoute Config.default.modulesPath ++ "core".toList :: indexTail) =
        some (.file (.text ("import PostContainer from './containers/PostContainer';\n".toList ++
          "import Post from './components/Post';\nexport \x7b\n  Post\n\x7d;\n".toList))) := by
    decide +kernel
  obtain ⟨text, same, reads⟩ := consistent _ _ there
  obtain rfl : _ = text := by simpa using same
  exact absurd reads (by decide +kernel)

end Call

end ComponentForge

import ComponentForge.Proofs.Tree.Fading

/-!
# The extent of removals

A removal agrees with the look whether something exists, links or no links. Where the look fails
because something is missing, nothing is removed, and where it fails for another cause, the removal
fails for this cause. What exists is removed with all that stands below, a link without its target.
One thing may remain: a directory that its path reached through what stood in the directory itself.
-/

namespace ComponentForge.Tree

open Access

/-- The last name of the path stands at the route, in the directory to which the steps before it
lead. On their way links are followed, the last name is not. -/
def NamedAt (t : Tree) (path : Path) (r : Route) : Prop :=
  ∃ front n d, path.steps = front ++ [.name n] ∧ t.walk front = .ok d ∧ t.get? d = some .dir ∧
    r = d ++ [n]

/-- Below the route everything is gone, and nothing has changed that does not stand there. -/
structure Emptied (r : Route) (t u : Tree) : Prop where
  below : ∀ s, r <+: s → s ≠ r → u.get? s = none
  outside : ∀ s, ¬ r <+: s → u.get? s = t.get? s

/-- The entry at the route, which is the one the path names, is removed. It is gone, but for a
directory that the path does not name any more when nothing stands below: this one is left empty. -/
structure Removed (path : Path) (r : Route) (t u : Tree) : Prop extends Emptied r t u where
  gone : u.get? r = none ↔ (t.get? r = some .dir → (t.clear r).NamedAt path r)
  left : u.get? r = none ∨ u.get? r = some .dir

variable {t u : Tree} {path : Path} {r : Route} {node : Node}

theorem emptied_clear (t : Tree) (r : Route) : Emptied r t (t.clear r) where
  below s inside hne := by rw [get?_clear, if_pos ⟨inside, hne⟩]
  outside s outside := by rw [get?_clear, if_neg fun h => outside h.1]

theorem emptied_prune (hr : r ≠ []) (outside : ∀ s, ¬ r <+: s → u.get? s = t.get? s) :
    Emptied r t (u.prune r) where
  below s inside _ := by rw [get?_prune_of_ne_nil u hr, if_pos inside]
  outside s aside := by rw [get?_prune_of_ne_nil u hr, if_neg aside, outside s aside]

theorem namedAt_of_place (named : NamesEntry path) (h : t.place path.steps = .ok r) :
    t.NamedAt path r := by
  obtain ⟨front, n, hsteps⟩ := named.steps
  rw [hsteps, place_concat] at h
  obtain ⟨d, walked, hd, -, rfl⟩ := h
  exact ⟨front, n, d, hsteps, walked, hd, rfl⟩

/-- In another tree the same path has its place where its last name stands. -/
theorem place_of_namedAt {r' : Route} (placed : t.place path.steps = .ok r)
    (h : u.NamedAt path r') : u.place path.steps = .ok r' := by
  obtain ⟨front, n, d, hsteps, walked, hd, rfl⟩ := h
  rw [hsteps, place_concat] at placed ⊢
  obtain ⟨-, -, -, fits, -⟩ := placed
  exact ⟨d, walked, hd, fits, rfl⟩

theorem exists?_of_notFound (h : find path t = .error .notFound t) : exists? t path = false := by
  rw [exists?, h]

theorem removed_prune (hr : r ≠ []) (outside : ∀ s, ¬ r <+: s → u.get? s = t.get? s)
    (still : t.get? r = some .dir → (t.clear r).NamedAt path r) : Removed path r t (u.prune r) := by
  have gone : (u.prune r).get? r = none := by
    rw [get?_prune_of_ne_nil u hr, if_pos (List.prefix_refl r)]
  exact ⟨emptied_prune hr outside, iff_of_true gone still, Or.inl gone⟩

theorem removed_clear (isDir : t.get? r = some .dir) (lost : ¬ (t.clear r).NamedAt path r) :
    Removed path r t (t.clear r) := by
  have stays : (t.clear r).get? r = some .dir := by
    rw [get?_clear, if_neg fun below => below.2 rfl, isDir]
  exact ⟨emptied_clear t r, iff_of_false (by simp [stays]) fun still => lost (still isDir),
    Or.inr stays⟩

/-- What is found is removed. -/
theorem remove_eq_of_found (named : NamesEntry path) (h : find path t = .ok (r, node) t) :
    ∃ u, remove path t = .ok true u ∧ Removed path r t u := by
  have hr := named.route_ne_nil h
  obtain ⟨-, -, placed, hnode⟩ := find_eq_ok_iff.1 h
  rw [lookupSteps_eq named.bare] at placed
  rw [remove, h]
  cases node with
  | file content =>
    exact ⟨_, rfl, removed_prune hr (fun _ _ => rfl) fun isDir => by simp [hnode] at isDir⟩
  | link target =>
    exact ⟨_, rfl, removed_prune hr (fun _ _ => rfl) fun isDir => by simp [hnode] at isDir⟩
  | dir =>
    rcases named.removeEmpty h with ⟨still, removed⟩ | ⟨lost, stays⟩
    · exact ⟨_, removed, removed_prune hr (emptied_clear t r).outside
        fun _ => namedAt_of_place named still⟩
    · refine ⟨_, stays, removed_clear hnode fun namedAt => ?_⟩
      cases lost.symm.trans (place_of_namedAt placed namedAt)

/-- A removal does what the look whether something exists says. If nothing is found, it changes
nothing: it says so, or fails for the cause that kept the look from it. If something is found, the
entry that the path names is removed with all that stands below, everything else stays, and nothing
is found afterwards. -/
theorem remove_agrees (t : Tree) (root : Path) (h : path.OfNames) :
    (exists? t (root.join path) = false → ∃ c, find (root.join path) t = .error c t ∧
      remove (root.join path) t = if c = .notFound then .ok false t else .error c t) ∧
    (exists? t (root.join path) = true → ∃ r u, t.NamedAt (root.join path) r ∧ (t.get? r).isSome ∧
      remove (root.join path) t = .ok true u ∧ Removed (root.join path) r t u ∧
      exists? u (root.join path) = false) := by
  have named := namesEntry_join root h.descends
  refine ⟨remove_eq_of_missing, fun there => ?_⟩
  obtain ⟨r, node, found⟩ := exists?_iff.1 there
  obtain ⟨-, -, placed, hnode⟩ := find_eq_ok_iff.1 found
  rw [lookupSteps_eq named.bare] at placed
  obtain ⟨u, done, removed⟩ := remove_eq_of_found named found
  exact ⟨r, u, namedAt_of_place named placed, by simp [hnode], done, removed,
    exists?_of_notFound (missing_of_remove named done)⟩

/-- A link in a directory leads to the directory above, and a file stands beside. -/
def returnTree : Tree :=
  ⟨[(["app".toList], .dir),
    (["app".toList, "back".toList], .link "..".toList),
    (["note".toList], .file (.text "mine".toList))]⟩

theorem remove_agrees_returnTree :
    Path.OfNames (.ofString "app/back/note") ∧
    exists? returnTree ((Path.ofString ".").join (.ofString "app/back/note")) = true ∧
    ∃ r u, returnTree.NamedAt ((Path.ofString ".").join (.ofString "app/back/note")) r ∧
      remove ((Path.ofString ".").join (.ofString "app/back/note")) returnTree = .ok true u ∧
      ∀ s, ¬ r <+: s → u.get? s = returnTree.get? s := by
  have ofNames : Path.OfNames (.ofString "app/back/note") :=
    ⟨rfl, by decide, by decide, by decide, rfl⟩
  have found : exists? returnTree ((Path.ofString ".").join (.ofString "app/back/note")) = true := by
    decide +kernel
  obtain ⟨r, u, named, -, done, removed, -⟩ :=
    (remove_agrees returnTree (.ofString ".") ofNames).2 found
  exact ⟨ofNames, found, r, u, named, done, removed.outside⟩

/-- Behind a file nothing is found, and the removal fails. A directory whose path passes a link in the
directory itself is found, and the removal leaves it, empty. -/
theorem remove_disagrees :
    Path.OfNames (.ofString "note/more") ∧ Path.OfNames (.ofString "app/back/app") ∧
    exists? returnTree ((Path.ofString ".").join (.ofString "note/more")) = false ∧
    remove ((Path.ofString ".").join (.ofString "note/more")) returnTree =
      .error .notADirectory returnTree ∧
    exists? returnTree ((Path.ofString ".").join (.ofString "app/back/app")) = true ∧
    ((remove ((Path.ofString ".").join (.ofString "app/back/app"))).after returnTree).get?
      ["app".toList] = some .dir :=
  ⟨⟨rfl, by decide, by decide, by decide, rfl⟩, ⟨rfl, by decide, by decide, by decide, rfl⟩,
    by decide +kernel, rfl, by decide +kernel, by decide +kernel⟩

end ComponentForge.Tree

import ComponentForge.Proofs.Tree.Removal

/-!
# Grounded roots

A root path is grounded if the way to its route does not lead through what lies below the route, as a
path with a step up could. What is made or removed below a grounded root leaves it where it is, and a
removal then takes away all that stands at its path, or nothing.
-/

namespace ComponentForge.Tree

open Access

/-- The root path leads to the route `R`, and would do so if nothing stood below. -/
structure Grounded (t : Tree) (root : Path) (R : Route) : Prop where
  plain : t.Plain
  passes : (t.clear R).Passes [] root.steps R

variable {t u : Tree} {R q : Route} {root path : Path}

namespace Grounded

theorem site (h : t.Grounded root R) : t.Site root R := by
  refine ⟨h.plain, h.passes.mono fun s hs => ?_⟩
  rw [get?_clear] at hs
  split at hs
  · cases hs
  · exact hs

theorem of_same_outside (h : t.Grounded root R) (plain : u.Plain)
    (same : ∀ s, ¬ (R <+: s ∧ s ≠ R) → u.get? s = t.get? s) : u.Grounded root R := by
  refine ⟨plain, h.passes.mono fun s hs => ?_⟩
  rw [get?_clear] at hs ⊢
  split at hs
  · cases hs
  · rename_i outside
    rw [if_neg outside, same s outside, hs]

theorem of_grown (h : t.Grounded root R) (plain : u.Plain) (grown : Grown R q t u) :
    u.Grounded root R := by
  refine h.of_same_outside plain fun s outside => ?_
  rcases grown s with same | ⟨⟨p, hp, -, rfl⟩, -⟩
  · exact same
  · exact absurd ⟨R.prefix_append p, by simpa using hp⟩ outside

theorem not_below {s : Route} (hq : q ≠ []) (outside : ¬ (R <+: s ∧ s ≠ R)) : ¬ R ++ q <+: s := by
  intro below
  refine outside ⟨(R.prefix_append q).trans below, ?_⟩
  rintro rfl
  have lengths := below.length_le
  have pos := List.length_pos_iff.2 hq
  rw [List.length_append] at lengths
  omega

theorem of_pruned (h : t.Grounded root R) (plain : u.Plain) (hq : q ≠ [])
    (pruned : ∀ s, u.get? s = if R ++ q <+: s then none else t.get? s) : u.Grounded root R := by
  refine h.of_same_outside plain fun s outside => ?_
  rw [pruned, if_neg (not_below hq outside)]

/-- What is found is removed with all that stands below. -/
theorem remove_of_exists (h : t.Grounded root R) (descends : path.Descends q)
    (there : Access.exists? t (root.join path)) :
    ∃ u, remove (root.join path) t = .ok true u ∧ u.Plain ∧
      ∀ s, u.get? s = if R ++ q <+: s then none else t.get? s := by
  have hr : R ++ q ≠ [] := by simp [descends.ne_nil]
  have fits := h.site.fits_of_exists? descends there
  obtain ⟨node, hnode⟩ := Option.isSome_iff_exists.1 (h.site.isSome_of_exists? descends there)
  have found := h.site.find_of_fits descends fits hnode
  have above := h.site.above_of_isSome descends (by simp [hnode])
  cases node with
  | link target => exact absurd hnode (h.plain.no_link _ target)
  | file content =>
    exact ⟨_, h.site.remove_file descends fits hnode, h.plain.prune hr,
      get?_prune_of_ne_nil t hr⟩
  | dir =>
    have cleared := h.plain.clear (R ++ q)
    have outside : ∀ s, ¬ (R <+: s ∧ s ≠ R) → (t.clear (R ++ q)).get? s = t.get? s := by
      intro s outside
      rw [get?_clear, if_neg fun below => not_below descends.ne_nil outside below.1]
    have grounded := h.of_same_outside cleared outside
    have above' : (t.clear (R ++ q)).get? (R ++ q.dropLast) = some .dir := by
      rw [get?_clear, if_neg, above]
      rintro ⟨below, -⟩
      have lengths := below.length_le
      have pos := List.length_pos_iff.2 descends.ne_nil
      rw [List.length_append, List.length_append, List.length_dropLast] at lengths
      omega
    have placed := grounded.site.place_of_fits descends fits above'
    obtain ⟨way, n, hsteps, -, -⟩ := descends.steps
    have last : (root.join path).steps.getLast? = some (.name n) := by
      rw [Path.steps_join root descends.relative, hsteps]
      simp
    have emptied : removeEmpty (R ++ q) (root.join path).steps (t.clear (R ++ q)) =
        .ok true ((t.clear (R ++ q)).prune (R ++ q)) := by
      simp [removeEmpty, last, placed, bind, Except.bind, pure, Except.pure]
    refine ⟨_, ?_, cleared.prune hr, fun s => ?_⟩
    · rw [remove, found]
      exact emptied
    · rw [get?_prune_of_ne_nil _ hr, get?_clear]
      split
      · rfl
      · rename_i outside
        rw [if_neg fun below => outside below.1]

/-- A removal that finds something takes away all that stands at the path. -/
theorem of_remove_true (h : t.Grounded root R) (descends : path.Descends q)
    (done : remove (root.join path) t = .ok true u) :
    (t.get? (R ++ q)).isSome ∧ u.Plain ∧ ∀ s, u.get? s = if R ++ q <+: s then none else t.get? s := by
  cases there : Access.exists? t (root.join path) with
  | true =>
    obtain ⟨v, removed, plain, pruned⟩ := h.remove_of_exists descends there
    obtain rfl := (EStateM.Result.ok.inj (removed.symm.trans done)).2
    exact ⟨h.site.isSome_of_exists? descends there, plain, pruned⟩
  | false =>
    obtain ⟨none, -⟩ := remove_missing there done
    cases none

/-- A removal that fails changes nothing, since it only fails where nothing is found. -/
theorem of_remove_error (h : t.Grounded root R) (descends : path.Descends q) {c : Cause}
    (done : remove (root.join path) t = .error c u) : u = t := by
  cases there : Access.exists? t (root.join path) with
  | true =>
    obtain ⟨v, removed, -⟩ := h.remove_of_exists descends there
    cases removed.symm.trans done
  | false =>
    obtain ⟨c', -, removes⟩ := remove_eq_of_missing there
    rw [removes] at done
    split at done
    · cases done
    · exact (EStateM.Result.error.inj done).2.symm

end Grounded

end ComponentForge.Tree

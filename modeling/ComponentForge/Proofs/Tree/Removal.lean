import ComponentForge.Proofs.Tree.Effects

/-!
# Removals

Whatever its outcome, a removal takes away nothing but what stands at the route of its path or below.
A file goes alone, and where nothing stands nothing happens.
-/

namespace ComponentForge.Tree

open Access

variable {t u : Tree} {R q r : Route} {root path : Path}

theorem get?_clear (t : Tree) (r s : Route) :
    (t.clear r).get? s = if r <+: s ∧ s ≠ r then none else t.get? s := by
  by_cases hs : s = []
  · subst hs
    rw [if_neg]
    · rfl
    · rintro ⟨inside, hne⟩
      exact hne (List.prefix_nil.1 inside).symm
  · have filtered := lookup_filter (p := fun s => s == r || !r.isPrefixOf s) (r := s) t.entries
    have kept : (s == r || !r.isPrefixOf s) = true ↔ ¬ (r <+: s ∧ s ≠ r) := by
      rw [Bool.or_eq_true, Bool.not_eq_true', beq_iff_eq, ← Bool.not_eq_true,
        List.isPrefixOf_iff_prefix]
      by_cases same : s = r <;> simp [same]
    simp only [get?, clear, hs, if_false, filtered]
    by_cases below : r <+: s ∧ s ≠ r
    · rw [if_pos below, if_neg (mt kept.1 (Decidable.not_not.2 below))]
    · rw [if_neg below, if_pos (kept.2 below)]

theorem get?_prune_of_ne_nil (t : Tree) (hr : r ≠ []) (s : Route) :
    (t.prune r).get? s = if r <+: s then none else t.get? s := by
  by_cases hs : s = []
  · subst hs
    rw [if_neg (by simpa using hr)]
    rfl
  · rw [get?_prune t r s hs]
    by_cases below : r <+: s <;> simp [below]

/-- A tree without a part that reaches down. -/
theorem Plain.of_cut (plain : t.Plain) (cut : Route → Prop) (gone : ∀ s, cut s → u.get? s = none)
    (kept : ∀ s, ¬ cut s → u.get? s = t.get? s) (down : ∀ s n, cut s → cut (s ++ [n])) :
    u.Plain where
  no_link s target := by
    by_cases hs : cut s
    · simp [gone s hs]
    · rw [kept s hs]
      exact plain.no_link s target
  closed s n hsome := by
    by_cases hn : cut (s ++ [n])
    · simp [gone _ hn] at hsome
    · rw [kept _ hn] at hsome
      rw [kept s fun hs => hn (down s n hs)]
      exact plain.closed s n hsome

theorem Shrunk.refl (r : Route) (t : Tree) : Shrunk r t t :=
  fun _ => Or.inl rfl

theorem shrunk_clear (t : Tree) (r : Route) : Shrunk r t (t.clear r) := by
  intro s
  rw [get?_clear]
  split
  · rename_i below
    exact Or.inr ⟨below.1, rfl⟩
  · exact Or.inl rfl

theorem shrunk_prune (t : Tree) (hr : r ≠ []) : Shrunk r t (t.prune r) := by
  intro s
  rw [get?_prune_of_ne_nil t hr]
  split
  · rename_i below
    exact Or.inr ⟨below, rfl⟩
  · exact Or.inl rfl

theorem Plain.clear (plain : t.Plain) (r : Route) : (t.clear r).Plain := by
  refine plain.of_cut (fun s => r <+: s ∧ s ≠ r) (fun s hs => ?_) (fun s hs => ?_) ?_
  · rw [get?_clear, if_pos hs]
  · rw [get?_clear, if_neg hs]
  · rintro s n ⟨below, -⟩
    refine ⟨below.trans (List.prefix_append s [n]), ?_⟩
    rintro rfl
    have := below.length_le
    rw [List.length_append, List.length_singleton] at this
    omega

theorem Plain.prune (plain : t.Plain) (hr : r ≠ []) : (t.prune r).Plain := by
  refine plain.of_cut (fun s => r <+: s) (fun s hs => ?_) (fun s hs => ?_) ?_
  · rw [get?_prune_of_ne_nil t hr, if_pos hs]
  · rw [get?_prune_of_ne_nil t hr, if_neg hs]
  · exact fun s n below => below.trans (List.prefix_append s [n])

theorem Shrunk.trans {v : Tree} (h : Shrunk r t u) (h' : Shrunk r u v) : Shrunk r t v := by
  intro s
  rcases h' s with same | ⟨below, gone⟩
  · rw [same]
    exact h s
  · exact Or.inr ⟨below, gone⟩

/-- The last step of a removal, after a directory was emptied. -/
theorem removeEmpty_ok {steps : List Step} {removed : Bool}
    (h : removeEmpty r steps t = .ok removed u) : u = t ∨ u = t.prune r := by
  simp only [removeEmpty] at h
  split at h
  · rename_i v hfound
    obtain rfl := (EStateM.Result.ok.inj h).2
    right
    split at hfound
    · cases hplace : t.place steps with
      | error c => simp [hplace, bind, Except.bind] at hfound
      | ok here =>
        by_cases same : here = r
        · simpa [hplace, bind, Except.bind, same, pure, Except.pure] using hfound.symm
        · simp [hplace, bind, Except.bind, same, throw, throwThe, MonadExceptOf.throw] at hfound
    · cases hwalk : t.walk steps.dropLast with
      | error c => simp [hwalk, bind, Except.bind] at hfound
      | ok here =>
        simp [hwalk, bind, Except.bind, throw, throwThe, MonadExceptOf.throw] at hfound
  · exact Or.inl (EStateM.Result.ok.inj h).2.symm
  · cases h

/-- The emptied directory goes or it stays, and nothing else changes. -/
theorem after_removeEmpty (r : Route) (steps : List Step) (t : Tree) :
    (removeEmpty r steps).after t = t ∨ (removeEmpty r steps).after t = t.prune r := by
  cases h : removeEmpty r steps t with
  | ok removed u =>
    rw [after_of_ok h]
    exact removeEmpty_ok h
  | error c u =>
    rw [after_of_error h]
    left
    simp only [removeEmpty] at h
    split at h
    · cases h
    · cases h
    · exact (EStateM.Result.error.inj h).2.symm

/-- A removal finds nothing exactly if something on the way is missing, and then it changes nothing. -/
theorem remove_eq_false_iff :
    remove path t = .ok false u ↔ u = t ∧ find path t = .error .notFound t := by
  rw [remove]
  cases hfind : find path t with
  | error c v =>
    obtain rfl := ofExcept_error hfind
    cases c <;> simp [eq_comm]
  | ok found v =>
    obtain ⟨r, node⟩ := found
    simp only [reduceCtorEq, and_false, iff_false]
    cases node with
    | file content => simp
    | link target => simp
    | dir =>
      intro h
      simp only [removeEmpty] at h
      repeat' split at h
      all_goals cases h

/-- Where nothing is found, a removal fails for the cause for which the look failed, unless this is
that something is missing. -/
theorem remove_eq_of_missing (missing : Access.exists? t path = false) :
    ∃ c, find path t = .error c t ∧
      remove path t = if c = .notFound then .ok false t else .error c t := by
  cases hfind : find path t with
  | ok found u =>
    rw [Access.exists?, hfind] at missing
    cases missing
  | error c u =>
    obtain rfl := ofExcept_error hfind
    refine ⟨c, rfl, ?_⟩
    rw [remove, hfind]
    cases c <;> rfl

/-- Where nothing is found nothing happens. -/
theorem remove_missing (h : Access.exists? t path = false) {removed : Bool}
    (hok : remove path t = .ok removed u) : removed = false ∧ u = t := by
  obtain ⟨c, -, removes⟩ := remove_eq_of_missing h
  rw [removes] at hok
  split at hok
  · obtain ⟨rfl, rfl⟩ := EStateM.Result.ok.inj hok
    exact ⟨rfl, rfl⟩
  · cases hok

namespace Site

/-- Nothing but what stands at the route or below is gone afterwards, also if the removal fails. -/
theorem after_remove (site : t.Site root R) (descends : path.Descends q) :
    Shrunk (R ++ q) t ((remove (root.join path)).after t) ∧
      ((remove (root.join path)).after t).Plain := by
  have hr : R ++ q ≠ [] := by simp [descends.ne_nil]
  cases hfind : find (root.join path) t with
  | error c v =>
    obtain rfl := ofExcept_error hfind
    have idle : (remove (root.join path)).after v = v := by
      rw [after, remove, hfind]
      cases c <;> rfl
    rw [idle]
    exact ⟨.refl _ _, site.plain⟩
  | ok found v =>
    obtain ⟨r, node⟩ := found
    obtain ⟨rfl, rfl, hnode⟩ := site.find_eq descends hfind
    cases node with
    | dir =>
      have cleared := shrunk_clear v (R ++ q)
      have plain := site.plain.clear (R ++ q)
      have emptied : (remove (root.join path)).after v =
          (removeEmpty (R ++ q) (root.join path).steps).after (v.clear (R ++ q)) := by
        rw [after, remove, hfind]
        rfl
      rw [emptied]
      rcases after_removeEmpty (R ++ q) (root.join path).steps (v.clear (R ++ q)) with same | pruned
      · rw [same]
        exact ⟨cleared, plain⟩
      · rw [pruned]
        exact ⟨cleared.trans (shrunk_prune _ hr), plain.prune hr⟩
    | file content =>
      have pruned : (remove (root.join path)).after v = v.prune (R ++ q) :=
        after_of_ok (by rw [remove, hfind])
      rw [pruned]
      exact ⟨shrunk_prune _ hr, site.plain.prune hr⟩
    | link target => exact absurd hnode (site.plain.no_link _ target)

/-- A file goes alone. -/
theorem remove_file (site : t.Site root R) (descends : path.Descends q)
    (fits : (root.join path).Fits) {content : Content}
    (h : t.get? (R ++ q) = some (.file content)) :
    remove (root.join path) t = .ok true (t.prune (R ++ q)) := by
  simp [remove, site.find_of_fits descends fits h]

end Site

/-- Below a file there is nothing that could go with it. -/
theorem Plain.get?_prune_file (plain : t.Plain) {content : Content}
    (h : t.get? r = some (.file content)) (s : Route) :
    (t.prune r).get? s = if s = r then none else t.get? s := by
  have hr : r ≠ [] := by
    rintro rfl
    simp [get?] at h
  rw [get?_prune_of_ne_nil t hr]
  by_cases hs : s = r
  · simp [hs]
  · rw [if_neg hs]
    split
    · rename_i below
      exact (plain.get?_below (by simp [h]) below hs).symm
    · rfl

end ComponentForge.Tree

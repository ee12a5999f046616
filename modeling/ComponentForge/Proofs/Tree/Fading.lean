import ComponentForge.Proofs.Tree.Making
import ComponentForge.Proofs.Tree.Removal

/-!
# Fading trees

A tree fades when entries go and texts of files change. A walk in a faded tree comes to the same as
before, or it finds something missing on its way. So what was missing stays missing, and what a
removal has taken away is missing afterwards, whatever the path.
-/

namespace ComponentForge.Tree

open Access

/-- Entries may be gone and files may hold another text. -/
def Fades (t u : Tree) : Prop :=
  ∀ s, u.get? s = t.get? s ∨ u.get? s = none ∨
    ∃ old new, t.get? s = some (.file (.text old)) ∧ u.get? s = some (.file (.text new))

variable {t u v : Tree} {here r R q : Route} {steps front base : List Step} {n : Text} {path : Path}

namespace Fades

theorem refl (t : Tree) : Fades t t :=
  fun _ => Or.inl rfl

theorem trans (h : Fades t u) (h' : Fades u v) : Fades t v := by
  intro s
  rcases h' s with same | gone | ⟨mid, new, hmid, hnew⟩
  · rw [same]
    exact h s
  · exact Or.inr (Or.inl gone)
  · rcases h s with same | gone | ⟨old, _, hold, -⟩
    · exact Or.inr (Or.inr ⟨mid, new, same.symm.trans hmid, hnew⟩)
    · simp [gone] at hmid
    · exact Or.inr (Or.inr ⟨old, new, hold, hnew⟩)

theorem of_shrunk (h : Shrunk r t u) : Fades t u := by
  intro s
  rcases h s with same | ⟨-, gone⟩
  · exact Or.inl same
  · exact Or.inr (Or.inl gone)

theorem of_refill {old : Text} (hold : t.get? r = some (.file (.text old))) (new : Text) :
    Fades t (t.set r (.file (.text new))) := by
  have hr : r ≠ [] := by
    rintro rfl
    simp [get?] at hold
  intro s
  rw [get?_set t hr]
  by_cases hs : s = r
  · exact Or.inr (Or.inr ⟨old, new, hs ▸ hold, if_pos hs⟩)
  · exact Or.inl (if_neg hs)

theorem isSome (h : Fades t u) (hs : (u.get? r).isSome) : (t.get? r).isSome := by
  rcases h r with same | gone | ⟨old, new, hold, -⟩
  · rwa [← same]
  · simp [gone] at hs
  · simp [hold]

theorem get?_none (h : Fades t u) (hr : t.get? r = none) : u.get? r = none := by
  rw [← Option.not_isSome_iff_eq_none] at hr ⊢
  exact mt h.isSome hr

/-- A directory is still there or gone. -/
theorem dir_or_none (h : Fades t u) (hr : t.get? r = some .dir) :
    u.get? r = some .dir ∨ u.get? r = none := by
  rcases h r with same | gone | ⟨old, new, hold, -⟩
  · exact Or.inl (same.trans hr)
  · exact Or.inr gone
  · simp [hold] at hr

theorem dir_iff (h : Fades t u) (hs : (u.get? r).isSome) :
    u.get? r = some .dir ↔ t.get? r = some .dir := by
  rcases h r with same | gone | ⟨old, new, hold, hnew⟩
  · rw [same]
  · simp [gone] at hs
  · simp [hold, hnew]

end Fades

section Walks

variable {follow follow' : Route → Text → List Step → Except Cause Route} {links : Nat}

theorem walkFrom_fades (fades : Fades t u)
    (hfollow : ∀ here target rest, follow' here target rest = follow here target rest ∨
      follow' here target rest = .error .notFound) :
    u.walkFrom false follow' here steps = t.walkFrom false follow here steps ∨
      u.walkFrom false follow' here steps = .error .notFound := by
  induction steps generalizing here with
  | nil => exact Or.inl rfl
  | cons step rest ih =>
    cases step with
    | stay => exact ih
    | up => exact ih
    | name n =>
      simp only [walkFrom]
      by_cases fits : maxNameSize < n.byteSize
      · simp [fits]
      · simp only [if_neg fits]
        rcases fades (here ++ [n]) with same | gone | ⟨old, new, hold, hnew⟩
        · rw [same]
          cases t.get? (here ++ [n]) with
          | none => exact Or.inl rfl
          | some node =>
            cases node with
            | dir => exact ih
            | file content => exact Or.inl rfl
            | link target => exact hfollow here target rest
        · exact Or.inr (by simp [gone])
        · exact Or.inl (by rw [hold, hnew])

/-- A walk ends as before, or something is missing on its way. -/
theorem walkWithin_fades (fades : Fades t u) :
    u.walkWithin false links here steps = t.walkWithin false links here steps ∨
      u.walkWithin false links here steps = .error .notFound := by
  induction links generalizing here steps with
  | zero => exact walkFrom_fades fades fun _ _ _ => Or.inl rfl
  | succ links ih =>
    refine walkFrom_fades fades fun here target rest => ?_
    simp only [Bool.false_and, Bool.false_eq_true, if_false]
    exact ih

end Walks

/-- A place is still the same, or something is missing on the way to it. -/
theorem place_fades (fades : Fades t u) (steps : List Step) :
    u.place steps = t.place steps ∨ u.place steps = .error .notFound := by
  simp only [place, walk]
  split
  · rcases @walkWithin_fades t u [] steps.dropLast maxLinks fades with same | missing
    · rw [same]
      cases walked : t.walkWithin false maxLinks [] steps.dropLast with
      | error c => exact Or.inl rfl
      | ok d =>
        -- No walk ends where nothing stands, so what it comes to is not what is gone.
        have stands : u.get? d = some .dir ↔ t.get? d = some .dir :=
          fades.dir_iff (walkWithin_ends standing_nil (same.trans walked)).isSome
        exact Or.inl (by simp only [bind, Except.bind, ne_eq, stands])
    · exact Or.inr (by simp [missing, bind, Except.bind])
  · exact walkWithin_fades fades

/-- The path ends with a name, without a slash after it. -/
structure NamesEntry (path : Path) : Prop where
  steps : ∃ front n, path.steps = front ++ [.name n]
  bare : path.endsInSlash = false

theorem namesEntry_join (root : Path) (descends : path.Descends q) : NamesEntry (root.join path) where
  steps := by
    obtain ⟨above, n, hsteps, -, -⟩ := descends.steps
    exact ⟨root.steps ++ above, n, by rw [Path.steps_join root descends.relative, hsteps,
      List.append_assoc]⟩
  bare := Site.bare_join descends

theorem checkPath_ne_notFound (path : Path) : checkPath path ≠ .error .notFound := by
  rw [checkPath]
  split
  · simp
  · split <;> simp

theorem find_eq_notFound_iff : find path t = .error .notFound u ↔ u = t ∧
    checkPath path = .ok () ∧ (t.place path.lookupSteps = .error .notFound ∨
      ∃ r, t.place path.lookupSteps = .ok r ∧ t.get? r = none) := by
  simp only [find, Access.ofExcept, bind, Except.bind]
  cases checked : checkPath path with
  | error c =>
    have other : c ≠ .notFound := fun same => checkPath_ne_notFound path (same ▸ checked)
    simp [other]
  | ok _ =>
    cases hplace : t.place path.lookupSteps with
    | error c => simp [and_comm, eq_comm]
    | ok r =>
      cases hnode : t.get? r with
      | none => simp [hnode, throw, throwThe, MonadExceptOf.throw, eq_comm]
      | some node => simp [hnode, pure, Except.pure]

/-- What is missing stays missing. -/
theorem missing_fades (fades : Fades t u) (h : find path t = .error .notFound t) :
    find path u = .error .notFound u := by
  rw [find_eq_notFound_iff] at h ⊢
  refine ⟨rfl, h.2.1, ?_⟩
  rcases place_fades fades path.lookupSteps with same | missing
  · rw [same]
    exact h.2.2.imp_right fun ⟨r, placed, gone⟩ => ⟨r, placed, fades.get?_none gone⟩
  · exact Or.inl missing

/-- What was found and is gone is missing. -/
theorem missing_of_gone (fades : Fades t u) {node : Node} (h : find path t = .ok (r, node) t)
    (gone : u.get? r = none) : find path u = .error .notFound u := by
  obtain ⟨-, checked, placed, -⟩ := find_eq_ok_iff.1 h
  refine find_eq_notFound_iff.2 ⟨rfl, checked, ?_⟩
  rcases place_fades fades path.lookupSteps with same | missing
  · exact Or.inr ⟨r, same.trans placed, gone⟩
  · exact Or.inl missing

theorem NamesEntry.route_ne_nil (named : NamesEntry path) {node : Node}
    (h : find path t = .ok (r, node) t) : r ≠ [] := by
  obtain ⟨⟨front, n, hsteps⟩, bare⟩ := named
  obtain ⟨-, -, placed, -⟩ := find_eq_ok_iff.1 h
  rw [lookupSteps_eq bare, hsteps, place_concat] at placed
  obtain ⟨d, -, -, -, rfl⟩ := placed
  simp

/-- An emptied directory goes, unless its path does not lead to it any more. -/
theorem NamesEntry.removeEmpty (named : NamesEntry path) (h : find path t = .ok (r, .dir) t) :
    (t.clear r).place path.steps = .ok r ∧
        removeEmpty r path.steps (t.clear r) = .ok true ((t.clear r).prune r) ∨
      (t.clear r).place path.steps = .error .notFound ∧
        removeEmpty r path.steps (t.clear r) = .ok true (t.clear r) := by
  obtain ⟨front, n, hsteps⟩ := named.steps
  have last : path.steps.getLast? = some (.name n) := by simp [hsteps]
  obtain ⟨-, -, placed, -⟩ := find_eq_ok_iff.1 h
  rw [lookupSteps_eq named.bare] at placed
  rcases place_fades (.of_shrunk (shrunk_clear t r)) path.steps with same | missing
  · rw [placed] at same
    refine Or.inl ⟨same, ?_⟩
    simp [Access.removeEmpty, last, same, bind, Except.bind, pure, Except.pure]
  · refine Or.inr ⟨missing, ?_⟩
    simp [Access.removeEmpty, last, missing, bind, Except.bind]

/-- After a removal nothing is found at its path. -/
theorem missing_of_remove (named : NamesEntry path) {removed : Bool}
    (h : remove path t = .ok removed u) : find path u = .error .notFound u := by
  rw [remove] at h
  cases hfind : find path t with
  | error c v =>
    obtain rfl := ofExcept_error hfind
    rw [hfind] at h
    cases c with
    | notFound => exact (EStateM.Result.ok.inj h).2 ▸ hfind
    | _ => cases h
  | ok found v =>
    obtain ⟨r, node⟩ := found
    obtain ⟨rfl, checked, -⟩ := find_eq_ok_iff.1 hfind
    have hr := named.route_ne_nil hfind
    have pruned : ∀ w, Fades v w → find path (w.prune r) = .error .notFound (w.prune r) := by
      intro w fades
      refine missing_of_gone (fades.trans (.of_shrunk (shrunk_prune w hr))) hfind ?_
      rw [get?_prune_of_ne_nil _ hr, if_pos (List.prefix_refl r)]
    rw [hfind] at h
    cases node with
    | file content => exact (EStateM.Result.ok.inj h).2 ▸ pruned v (.refl v)
    | link target => exact (EStateM.Result.ok.inj h).2 ▸ pruned v (.refl v)
    | dir =>
      simp only at h
      rcases named.removeEmpty hfind with ⟨-, gone⟩ | ⟨lost, stays⟩
      · rw [gone] at h
        exact (EStateM.Result.ok.inj h).2 ▸ pruned _ (.of_shrunk (shrunk_clear v r))
      · rw [stays] at h
        obtain rfl := (EStateM.Result.ok.inj h).2
        exact find_eq_notFound_iff.2
          ⟨rfl, checked, Or.inl (by rwa [lookupSteps_eq named.bare])⟩

/-- The routes that the steps lead through, from the first to the last. -/
def along : Route → List Step → List Route
  | here, [] => [here]
  | here, .stay :: rest => along here rest
  | here, .up :: rest => here :: along here.dropLast rest
  | here, .name n :: rest => here :: along (here ++ [n]) rest

theorem mem_along (here : Route) (steps : List Step) : here ∈ along here steps := by
  induction steps generalizing here with
  | nil => simp [along]
  | cons step rest ih => cases step <;> simp [along, ih]

/-- A way is open as long as the directories on it stand. -/
theorem Passes.of_along (h : t.Passes here steps r)
    (stays : ∀ s ∈ along here steps, t.get? s = some .dir → u.get? s = some .dir) :
    u.Passes here steps r := by
  induction h with
  | nil here => exact .nil here
  | stay _ ih => exact .stay (ih stays)
  | up _ ih => exact .up (ih fun s hs => stays s (List.mem_cons_of_mem _ hs))
  | name fits isDir _ ih =>
    exact .name fits (stays _ (List.mem_cons_of_mem _ (mem_along _ _)) isDir)
      (ih fun s hs => stays s (List.mem_cons_of_mem _ hs))

theorem getLast?_cons_along (first here : Route) (steps : List Step) :
    (first :: along here steps).getLast? = (along here steps).getLast? :=
  List.getLast?_cons_of_ne_nil (List.ne_nil_of_mem (mem_along here steps))

theorem Passes.getLast?_along (h : t.Passes here steps r) : (along here steps).getLast? = some r := by
  induction h with
  | nil here => rfl
  | stay _ ih => exact ih
  | up _ ih => exact (getLast?_cons_along _ _ _).trans ih
  | name _ _ _ ih => exact (getLast?_cons_along _ _ _).trans ih

theorem getLast?_along_of_no_up (hup : .up ∉ steps) :
    (along here steps).getLast? = some (here ++ steps.filterMap Step.name?) := by
  induction steps generalizing here with
  | nil => simp [along]
  | cons step rest ih =>
    rw [List.mem_cons, not_or] at hup
    cases step with
    | stay => exact ih hup.2
    | up => exact absurd rfl hup.1
    | name n =>
      rw [along, getLast?_cons_along, ih hup.2, List.append_assoc]
      rfl

/-- Without a step up every route on the way is on the way down to the last one. -/
theorem prefix_of_mem_along (hup : .up ∉ steps) (h : q ∈ along here steps) :
    q <+: here ++ steps.filterMap Step.name? := by
  induction steps generalizing here with
  | nil =>
    obtain rfl : q = here := by simpa [along] using h
    simp
  | cons step rest ih =>
    rw [List.mem_cons, not_or] at hup
    cases step with
    | stay => exact ih hup.2 h
    | up => exact absurd rfl hup.1
    | name n =>
      rcases List.mem_cons.1 h with rfl | h
      · exact List.prefix_append _ _
      · simpa [Step.name?] using ih hup.2 h

end ComponentForge.Tree

import ComponentForge.Proofs.Path
import ComponentForge.Proofs.Tree.Rewrite

/-!
# Trees without links

Where no link stands, a walk ends at the route that its steps spell. A site is a tree with a root
path that leads through directories; a path that goes down from the root has its route below that of
the root, and what stands at the route can be told from the path.
-/

namespace ComponentForge.Tree

/-- No link stands in the tree, and everything stands in a directory. -/
structure Plain (t : Tree) : Prop where
  no_link : ∀ r target, t.get? r ≠ some (.link target)
  closed : ∀ r n, (t.get? (r ++ [n])).isSome → t.get? r = some .dir

/-- The steps lead from one directory to another and pass directories only. -/
inductive Passes (t : Tree) : Route → List Step → Route → Prop where
  | nil (here : Route) : Passes t here [] here
  | stay {here r : Route} {rest : List Step} : Passes t here rest r → Passes t here (.stay :: rest) r
  | up {here r : Route} {rest : List Step} : Passes t here.dropLast rest r →
      Passes t here (.up :: rest) r
  | name {here r : Route} {n : Text} {rest : List Step} : ¬ maxNameSize < n.byteSize →
      t.get? (here ++ [n]) = some .dir → Passes t (here ++ [n]) rest r →
      Passes t here (.name n :: rest) r

theorem get?_empty (r : Route) : empty.get? r = if r = [] then some .dir else none := by
  by_cases hr : r = [] <;> simp [get?, empty, hr]

theorem plain_empty : empty.Plain where
  no_link r target := by
    rw [get?_empty]
    split <;> simp
  closed r n h := by simp [get?_empty] at h

variable {t u : Tree} {here mid r : Route} {steps more : List Step}

theorem Plain.get?_of_prefix (plain : t.Plain) {s : Route} (h : (t.get? r).isSome) (hs : s <+: r)
    (hne : s ≠ r) : t.get? s = some .dir := by
  obtain ⟨rest, rfl⟩ := hs
  have strict : rest ≠ [] := by
    rintro rfl
    simp at hne
  clear hne
  induction rest generalizing s with
  | nil => exact absurd rfl strict
  | cons n rest ih =>
    apply plain.closed s n
    cases rest with
    | nil => exact h
    | cons m rest => simp [ih (s := s ++ [n]) (by simpa using h) (by simp)]

theorem Plain.standing (plain : t.Plain) (h : t.get? r = some .dir) : t.Standing r := by
  intro s hs
  by_cases hne : s = r
  · exact hne ▸ h
  · exact plain.get?_of_prefix (by simp [h]) hs hne

/-- Nothing stands below what is not a directory. -/
theorem Plain.get?_below (plain : t.Plain) (h : t.get? r ≠ some .dir) {s : Route} (hs : r <+: s)
    (hne : s ≠ r) : t.get? s = none := by
  rw [← Option.not_isSome_iff_eq_none]
  intro hsome
  exact h (plain.get?_of_prefix hsome hs hne.symm)

namespace Passes

theorem append (h : t.Passes here steps mid) (h' : t.Passes mid more r) :
    t.Passes here (steps ++ more) r := by
  induction h with
  | nil here => exact h'
  | stay _ ih => exact .stay (ih h')
  | up _ ih => exact .up (ih h')
  | name fits isDir _ ih => exact .name fits isDir (ih h')

theorem of_append (h : t.Passes here (steps ++ more) r) :
    ∃ mid, t.Passes here steps mid ∧ t.Passes mid more r := by
  induction steps generalizing here with
  | nil => exact ⟨here, .nil here, h⟩
  | cons step rest ih =>
    cases h with
    | stay h =>
      obtain ⟨mid, first, second⟩ := ih h
      exact ⟨mid, .stay first, second⟩
    | up h =>
      obtain ⟨mid, first, second⟩ := ih h
      exact ⟨mid, .up first, second⟩
    | name fits isDir h =>
      obtain ⟨mid, first, second⟩ := ih h
      exact ⟨mid, .name fits isDir first, second⟩

/-- Directories that stay keep a way open. -/
theorem mono (h : t.Passes here steps r)
    (stays : ∀ s, t.get? s = some .dir → u.get? s = some .dir) : u.Passes here steps r := by
  induction h with
  | nil here => exact .nil here
  | stay _ ih => exact .stay ih
  | up _ ih => exact .up ih
  | name fits isDir _ ih => exact .name fits (stays _ isDir) ih

theorem moves (h : t.Passes here steps r) : t.Passes here (steps.filter (· != .stay)) r := by
  induction h with
  | nil here => exact .nil here
  | stay _ ih => exact ih
  | up _ ih => exact .up ih
  | name fits isDir _ ih => exact .name fits isDir ih

/-- The way down ends at the names of its steps. -/
theorem eq_names (h : t.Passes here steps r) (hup : .up ∉ steps) :
    r = here ++ steps.filterMap Step.name? := by
  induction h with
  | nil here => simp
  | stay _ ih => exact ih (by simpa using hup)
  | up _ _ => simp at hup
  | name _ _ _ ih => simpa [Step.name?] using ih (by simpa using hup)

theorem standing (h : t.Passes here steps r) (start : t.Standing here) : t.Standing r := by
  induction h with
  | nil here => exact start
  | stay _ ih => exact ih start
  | up _ ih => exact ih start.dropLast
  | name _ isDir _ ih => exact ih (start.concat isDir)

theorem fits (h : t.Passes here steps r) : ∀ n, .name n ∈ steps → ¬ maxNameSize < n.byteSize := by
  induction h with
  | nil here => simp
  | stay _ ih => simpa using ih
  | up _ ih => simpa using ih
  | name fits _ _ ih =>
    intro n hn
    rcases List.mem_cons.1 hn with hn | hn
    · exact Step.name.inj hn ▸ fits
    · exact ih n hn

theorem walkFrom {mayCreate : Bool} {follow : Route → Text → List Step → Except Cause Route}
    (h : t.Passes here steps mid) : t.walkFrom mayCreate follow here (steps ++ more) =
      t.walkFrom mayCreate follow mid more := by
  induction h with
  | nil here => rfl
  | stay _ ih => exact ih
  | up _ ih => exact ih
  | name fits isDir _ ih =>
    simp only [List.cons_append, Tree.walkFrom, if_neg fits, isDir]
    exact ih

end Passes

theorem walkWithin_eq_walkFrom (t : Tree) (mayCreate : Bool) (links : Nat) :
    ∃ follow, ∀ here steps, t.walkWithin mayCreate links here steps =
      t.walkFrom mayCreate follow here steps := by
  cases links with
  | zero => exact ⟨_, fun _ _ => rfl⟩
  | succ links => exact ⟨_, fun _ _ => rfl⟩

theorem Passes.walkWithin {mayCreate : Bool} {links : Nat} (h : t.Passes here steps mid) :
    t.walkWithin mayCreate links here (steps ++ more) = t.walkWithin mayCreate links mid more := by
  obtain ⟨follow, walked⟩ := walkWithin_eq_walkFrom t mayCreate links
  rw [walked, walked, h.walkFrom]

/-- The walk along a way that is open. -/
theorem Passes.walkWithin_eq (h : t.Passes here steps r) (mayCreate : Bool) (links : Nat) :
    t.walkWithin mayCreate links here steps = .ok r := by
  obtain ⟨follow, walked⟩ := walkWithin_eq_walkFrom t mayCreate links
  have whole : t.walkFrom mayCreate follow here (steps ++ []) = t.walkFrom mayCreate follow r [] :=
    h.walkFrom
  rw [walked, ← List.append_nil steps, whole]
  rfl

namespace Plain

variable {mayCreate : Bool} {follow : Route → Text → List Step → Except Cause Route}

/-- A walk to a directory passes directories. -/
theorem passes_of_walkFrom (plain : t.Plain)
    (h : t.walkFrom mayCreate follow here steps = .ok r) (hr : t.get? r = some .dir) :
    t.Passes here steps r := by
  induction steps generalizing here with
  | nil =>
    obtain rfl : here = r := by simpa [walkFrom] using h
    exact .nil here
  | cons step rest ih =>
    cases step with
    | stay => exact .stay (ih h)
    | up => exact .up (ih h)
    | name n =>
      obtain ⟨fits, enters⟩ := walkFrom_name_eq_ok_iff.1 h
      cases enters with
      | dir isDir goes => exact .name fits isDir (ih goes)
      | file isFile _ ends => simp [← ends, isFile] at hr
      | free none _ _ ends => simp [← ends, none] at hr
      | link isLink _ => exact absurd isLink (plain.no_link _ _)

/-- A walk that ends with a name passes directories before it. -/
theorem passes_of_walkFrom_concat (plain : t.Plain) {n : Text}
    (h : t.walkFrom mayCreate follow here (steps ++ [.name n]) = .ok r) :
    ∃ mid, t.Passes here steps mid ∧ ¬ maxNameSize < n.byteSize ∧ r = mid ++ [n] := by
  induction steps generalizing here with
  | nil =>
    obtain ⟨fits, enters⟩ := walkFrom_name_eq_ok_iff.1 h
    refine ⟨here, .nil here, fits, ?_⟩
    cases enters with
    | dir _ goes => exact (Except.ok.inj goes).symm
    | file _ _ ends => exact ends.symm
    | free _ _ _ ends => exact ends.symm
    | link isLink _ => exact absurd isLink (plain.no_link _ _)
  | cons step rest ih =>
    cases step with
    | stay =>
      obtain ⟨mid, passes, last⟩ := ih h
      exact ⟨mid, .stay passes, last⟩
    | up =>
      obtain ⟨mid, passes, last⟩ := ih h
      exact ⟨mid, .up passes, last⟩
    | name m =>
      obtain ⟨fits, enters⟩ := walkFrom_name_eq_ok_iff.1 h
      cases enters with
      | dir isDir goes =>
        obtain ⟨mid, passes, last⟩ := ih goes
        exact ⟨mid, .name fits isDir passes, last⟩
      | file _ last _ => simp at last
      | free _ _ last _ => simp at last
      | link isLink _ => exact absurd isLink (plain.no_link _ _)

/-- The way down to a directory is open. -/
theorem passes_down (plain : t.Plain) (hup : .up ∉ steps)
    (fits : ∀ n, .name n ∈ steps → ¬ maxNameSize < n.byteSize)
    (h : t.get? (here ++ steps.filterMap Step.name?) = some .dir) :
    t.Passes here steps (here ++ steps.filterMap Step.name?) := by
  induction steps generalizing here with
  | nil => simpa using Passes.nil here
  | cons step rest ih =>
    rw [List.mem_cons, not_or] at hup
    have fits_rest : ∀ n, .name n ∈ rest → ¬ maxNameSize < n.byteSize :=
      fun n hn => fits n (List.mem_cons_of_mem step hn)
    cases step with
    | stay => exact .stay (ih hup.2 fits_rest h)
    | up => exact absurd rfl hup.1
    | name n =>
      have regroup : here ++ (Step.name n :: rest).filterMap Step.name? =
          here ++ [n] ++ rest.filterMap Step.name? := by simp [Step.name?]
      rw [regroup] at h ⊢
      exact .name (fits n List.mem_cons_self)
        (plain.standing h (here ++ [n]) (List.prefix_append _ _)) (ih hup.2 fits_rest h)

end Plain

end ComponentForge.Tree

import ComponentForge.Tree.Access

/-!
# Walks through directories

A walk that goes on after some of its steps passes a directory there, links included. Steps that
stay can be left out, and a walk to a file is the same walk when the last name may be created and
when files hold something else.
-/

namespace ComponentForge.Tree

/-- The route and every route above it are directories. -/
def Standing (t : Tree) (r : Route) : Prop :=
  ∀ s, s <+: r → t.get? s = some .dir

variable {t : Tree}

theorem standing_nil : t.Standing [] := by
  intro s hs
  rw [List.prefix_nil.1 hs]
  rfl

theorem Standing.dropLast {r : Route} (h : t.Standing r) : t.Standing r.dropLast :=
  fun s hs => h s (hs.trans (List.dropLast_prefix r))

theorem Standing.concat {r : Route} {n : Text} (h : t.Standing r)
    (hn : t.get? (r ++ [n]) = some .dir) : t.Standing (r ++ [n]) := by
  intro s hs
  rcases List.prefix_concat_iff.1 hs with rfl | hs
  · exact hn
  · exact h s hs

/-- A link is followed from the root or from where it stands. -/
theorem Standing.linkStart {here : Route} (h : t.Standing here) (target : Text) :
    t.Standing (if (Path.mk target).isAbsolute then [] else here) := by
  split
  · exact standing_nil
  · exact h

theorem Standing.get? {r : Route} (h : t.Standing r) : t.get? r = some .dir :=
  h r (List.prefix_refl r)

/-- The steps lead from `here` to `r` when enough links may be followed. -/
def Leads (t : Tree) (here : Route) (steps : List Step) (r : Route) : Prop :=
  ∃ links, t.walkWithin false links here steps = .ok r

section Enters

variable {follow : Route → Text → List Step → Except Cause Route} {mayCreate : Bool} {here r : Route}
  {n : Text} {rest : List Step}

/-- How a walk goes on by a name: into a directory, along a link, or to its end, which is a file or
nothing yet. -/
inductive Enters (t : Tree) (mayCreate : Bool)
    (follow : Route → Text → List Step → Except Cause Route) (here : Route) (n : Text)
    (rest : List Step) (r : Route) : Prop
  | dir : t.get? (here ++ [n]) = some .dir →
    t.walkFrom mayCreate follow (here ++ [n]) rest = .ok r → Enters t mayCreate follow here n rest r
  | file {content : Content} : t.get? (here ++ [n]) = some (.file content) → rest = [] →
    here ++ [n] = r → Enters t mayCreate follow here n rest r
  | free : t.get? (here ++ [n]) = none → mayCreate → rest = [] → here ++ [n] = r →
    Enters t mayCreate follow here n rest r
  | link {target : Text} : t.get? (here ++ [n]) = some (.link target) →
    follow here target rest = .ok r → Enters t mayCreate follow here n rest r

theorem walkFrom_name_eq_ok_iff : t.walkFrom mayCreate follow here (.name n :: rest) = .ok r ↔
    ¬ maxNameSize < n.byteSize ∧ t.Enters mayCreate follow here n rest r := by
  constructor
  · intro h
    rw [walkFrom] at h
    split at h
    · cases h
    · rename_i fits
      refine ⟨fits, ?_⟩
      cases hn : t.get? (here ++ [n]) with
      | none =>
        simp only [hn] at h
        split at h
        · rename_i last
          obtain ⟨created, empty⟩ := Bool.and_eq_true_iff.1 last
          exact .free hn created (List.isEmpty_iff.1 empty) (Except.ok.inj h)
        · cases h
      | some node =>
        cases node with
        | dir => exact .dir hn (by simpa only [hn] using h)
        | link target => exact .link hn (by simpa only [hn] using h)
        | file content =>
          simp only [hn] at h
          split at h
          · rename_i empty
            exact .file hn (List.isEmpty_iff.1 empty) (Except.ok.inj h)
          · cases h
  · rintro ⟨fits, enters⟩
    rw [walkFrom, if_neg fits]
    cases enters with
    | dir isDir goes => simpa only [isDir] using goes
    | file isFile last ends =>
      subst last ends
      simp [isFile]
    | free none created last ends =>
      subst last ends
      simp [none, created]
    | link isLink goes => simpa only [isLink] using goes

end Enters

section Append

variable {follow : Route → Text → List Step → Except Cause Route}

theorem walkFrom_append
    (hstart : ∀ mid more r, t.walkFrom false follow mid more = .ok r → t.Leads mid more r)
    (hfollow : ∀ here target rest more r, t.Standing here → more ≠ [] →
      follow here target (rest ++ more) = .ok r →
      ∃ mid, follow here target rest = .ok mid ∧ t.Standing mid ∧ t.Leads mid more r)
    {here r : Route} {steps more : List Step} (standing : t.Standing here) (hmore : more ≠ [])
    (h : t.walkFrom false follow here (steps ++ more) = .ok r) :
    ∃ mid, t.walkFrom false follow here steps = .ok mid ∧ t.Standing mid ∧ t.Leads mid more r := by
  induction steps generalizing here with
  | nil => exact ⟨here, rfl, standing, hstart here more r h⟩
  | cons step rest ih =>
    cases step with
    | stay => exact ih standing h
    | up => exact ih standing.dropLast h
    | name n =>
      obtain ⟨fits, enters⟩ := walkFrom_name_eq_ok_iff.1 h
      cases enters with
      | dir isDir goes =>
        obtain ⟨mid, walked, goes_on⟩ := ih (standing.concat isDir) goes
        exact ⟨mid, walkFrom_name_eq_ok_iff.2 ⟨fits, .dir isDir walked⟩, goes_on⟩
      | file _ last _ => exact absurd (List.append_eq_nil_iff.1 last).2 hmore
      | free _ created _ _ => cases created
      | link isLink goes =>
        obtain ⟨mid, walked, goes_on⟩ := hfollow here _ rest more r standing hmore goes
        exact ⟨mid, walkFrom_name_eq_ok_iff.2 ⟨fits, .link isLink walked⟩, goes_on⟩

/-- A walk that goes on passes a directory, and goes on from there. -/
theorem walkWithin_append {links : Nat} {here r : Route} {steps more : List Step}
    (standing : t.Standing here) (hmore : more ≠ [])
    (h : t.walkWithin false links here (steps ++ more) = .ok r) :
    ∃ mid, t.walkWithin false links here steps = .ok mid ∧ t.Standing mid ∧
      t.Leads mid more r := by
  induction links generalizing here steps more r with
  | zero =>
    refine walkFrom_append (fun mid more r h => ⟨0, h⟩) ?_ standing hmore h
    intro here target rest more r _ _ h
    simp at h
  | succ links ih =>
    refine walkFrom_append (fun mid more r h => ⟨links + 1, h⟩) ?_ standing hmore h
    intro here target rest more r standing hmore h
    simp only [Bool.false_and, Bool.false_eq_true, if_false] at h ⊢
    rw [← List.append_assoc] at h
    exact ih (standing.linkStart target) hmore h

end Append

/-- The second steps are the first without some that stay. -/
inductive Thins : List Step → List Step → Prop where
  | nil : Thins [] []
  | skip {a b : List Step} : Thins a b → Thins (.stay :: a) b
  | keep {a b : List Step} (step : Step) : Thins a b → Thins (step :: a) (step :: b)

theorem Thins.append_left {a b : List Step} (h : Thins a b) (lead : List Step) :
    Thins (lead ++ a) (lead ++ b) := by
  induction lead with
  | nil => exact h
  | cons step lead ih => exact .keep step ih

theorem thins_filter (steps : List Step) : Thins steps (steps.filter (· != .stay)) := by
  induction steps with
  | nil => exact .nil
  | cons step rest ih =>
    cases step with
    | stay => exact .skip ih
    | up => exact .keep _ ih
    | name n => exact .keep _ ih

theorem walkFrom_thins {follow : Route → Text → List Step → Except Cause Route}
    (hfollow : ∀ here target a b r, Thins a b → follow here target a = .ok r →
      follow here target b = .ok r) {here r : Route} {a b : List Step} (thins : Thins a b)
    (h : t.walkFrom false follow here a = .ok r) : t.walkFrom false follow here b = .ok r := by
  induction thins generalizing here with
  | nil => exact h
  | skip _ ih => exact ih h
  | @keep a b step thins ih =>
    cases step with
    | stay => exact ih h
    | up => exact ih h
    | name n =>
      obtain ⟨fits, enters⟩ := walkFrom_name_eq_ok_iff.1 h
      refine walkFrom_name_eq_ok_iff.2 ⟨fits, ?_⟩
      cases enters with
      | dir isDir goes => exact .dir isDir (ih goes)
      | file isFile last ends =>
        subst last
        cases thins
        exact .file isFile rfl ends
      | free _ created _ _ => cases created
      | link isLink goes => exact .link isLink (hfollow here _ a b r thins goes)

/-- Steps that stay can be left out of a walk. -/
theorem walkWithin_thins {links : Nat} {here r : Route} {a b : List Step} (thins : Thins a b)
    (h : t.walkWithin false links here a = .ok r) : t.walkWithin false links here b = .ok r := by
  induction links generalizing here a b r with
  | zero =>
    refine walkFrom_thins ?_ thins h
    intro here target a b r _ h
    simp at h
  | succ links ih =>
    refine walkFrom_thins ?_ thins h
    intro here target a b r thins h
    simp only [Bool.false_and, Bool.false_eq_true, if_false] at h ⊢
    exact ih (thins.append_left _) h

theorem standing_of_walkWithin_nil {links : Nat} {r : Route}
    (h : t.walkWithin false links [] [] = .ok r) : t.Standing r := by
  cases links <;> exact Except.ok.inj h ▸ standing_nil

theorem eq_of_leads_stay {mid r : Route} (h : t.Leads mid [.stay] r) : mid = r := by
  obtain ⟨links, h⟩ := h
  cases links <;> simpa [walkWithin, walkFrom] using h

theorem eq_of_leads_up {mid r : Route} (h : t.Leads mid [.up] r) : mid.dropLast = r := by
  obtain ⟨links, h⟩ := h
  cases links <;> simpa [walkWithin, walkFrom] using h

/-- A step that is no name leads from a directory to a directory. -/
theorem Standing.of_leads {mid r : Route} {step : Step} (standing : t.Standing mid)
    (nameless : ∀ n, step ≠ .name n) (h : t.Leads mid [step] r) : t.Standing r := by
  cases step with
  | stay => exact eq_of_leads_stay h ▸ standing
  | up => exact eq_of_leads_up h ▸ standing.dropLast
  | name n => exact absurd rfl (nameless n)

theorem isDir_of_lookupSteps {links : Nat} {here r : Route} {path : Path}
    (standing : t.Standing here) (slash : path.endsInSlash)
    (h : t.walkWithin false links here path.lookupSteps = .ok r) : t.get? r = some .dir := by
  rw [Path.lookupSteps, if_pos slash] at h
  obtain ⟨mid, -, hmid, goes⟩ := walkWithin_append standing (by simp) h
  exact eq_of_leads_stay goes ▸ hmid.get?

section Create

variable {content : Content}

theorem walkFrom_create {follow create : Route → Text → List Step → Except Cause Route}
    (hfollow : ∀ here target rest r, t.Standing here → t.get? r = some (.file content) →
      follow here target rest = .ok r → create here target rest = .ok r) {here r : Route}
    {steps : List Step} (standing : t.Standing here) (hr : t.get? r = some (.file content))
    (h : t.walkFrom false follow here steps = .ok r) : t.walkFrom true create here steps = .ok r := by
  induction steps generalizing here with
  | nil => exact h
  | cons step rest ih =>
    cases step with
    | stay => exact ih standing h
    | up => exact ih standing.dropLast h
    | name n =>
      obtain ⟨fits, enters⟩ := walkFrom_name_eq_ok_iff.1 h
      refine walkFrom_name_eq_ok_iff.2 ⟨fits, ?_⟩
      cases enters with
      | dir isDir goes => exact .dir isDir (ih (standing.concat isDir) goes)
      | file isFile last ends => exact .file isFile last ends
      | free _ created _ _ => cases created
      | link isLink goes => exact .link isLink (hfollow here _ rest r standing hr goes)

/-- A walk to a file finds the same file if the last name may be created. -/
theorem walkWithin_create {links : Nat} {here r : Route} {steps : List Step}
    (standing : t.Standing here) (hr : t.get? r = some (.file content))
    (h : t.walkWithin false links here steps = .ok r) :
    t.walkWithin true links here steps = .ok r := by
  induction links generalizing here steps r with
  | zero =>
    refine walkFrom_create ?_ standing hr h
    intro here target rest r _ _ h
    simp at h
  | succ links ih =>
    refine walkFrom_create ?_ standing hr h
    intro here target rest r standing hr h
    simp only [Bool.false_and, Bool.false_eq_true, if_false] at h ⊢
    have start_standing := standing.linkStart target
    split
    · rename_i directory
      simp only [Bool.true_and, Bool.and_eq_true, List.isEmpty_iff, Path.asksForDirectory] at directory
      obtain ⟨rfl, slash, -⟩ := directory
      rw [List.append_nil] at h
      have isDir := isDir_of_lookupSteps start_standing slash h
      simp [hr] at isDir
    · exact ih start_standing hr h

end Create

/-- What may stand at the end of a walk: a directory, a file, or nothing if it may be created. -/
def Ends (t : Tree) (mayCreate : Bool) (r : Route) : Prop :=
  t.get? r = some .dir ∨ (∃ content, t.get? r = some (.file content)) ∨
    mayCreate = true ∧ t.get? r = none

section Ends

variable {follow : Route → Text → List Step → Except Cause Route} {mayCreate : Bool} {here r : Route}
  {steps : List Step}

theorem walkFrom_ends
    (hfollow : ∀ here target rest, t.Standing here → follow here target rest = .ok r →
      t.Ends mayCreate r)
    (standing : t.Standing here) (h : t.walkFrom mayCreate follow here steps = .ok r) :
    t.Ends mayCreate r := by
  induction steps generalizing here with
  | nil => exact Or.inl (Except.ok.inj h ▸ standing.get?)
  | cons step rest ih =>
    cases step with
    | stay => exact ih standing h
    | up => exact ih standing.dropLast h
    | name n =>
      obtain ⟨-, enters⟩ := walkFrom_name_eq_ok_iff.1 h
      cases enters with
      | dir isDir goes => exact ih (standing.concat isDir) goes
      | file isFile _ ends => exact Or.inr (Or.inl ⟨_, ends ▸ isFile⟩)
      | free none created _ ends => exact Or.inr (Or.inr ⟨created, ends ▸ none⟩)
      | link _ goes => exact hfollow here _ rest standing goes

/-- Links are followed to their ends. -/
theorem walkWithin_ends {links : Nat} (standing : t.Standing here)
    (h : t.walkWithin mayCreate links here steps = .ok r) : t.Ends mayCreate r := by
  induction links generalizing here steps with
  | zero =>
    refine walkFrom_ends ?_ standing h
    intro here target rest _ h
    cases h
  | succ links ih =>
    refine walkFrom_ends ?_ standing h
    intro here target rest standing h
    simp only at h
    split at h
    · cases looked : t.walkWithin false links (if (Path.mk target).isAbsolute then [] else here)
          (Path.mk target).steps.dropLast with
      | error c => simp [looked, bind, Except.bind] at h
      | ok d => simp [looked, bind, Except.bind, throw, throwThe, MonadExceptOf.throw] at h
    · exact ih (standing.linkStart target) h

end Ends

theorem Ends.of_isSome {mayCreate : Bool} {r : Route} (h : t.Ends mayCreate r)
    (hr : (t.get? r).isSome) : t.Ends false r := by
  rcases h with dir | file | ⟨-, none⟩
  · exact Or.inl dir
  · exact Or.inr (Or.inl file)
  · simp [none] at hr

/-- A walk that creates nothing ends at something. -/
theorem Ends.isSome {r : Route} (h : t.Ends false r) : (t.get? r).isSome := by
  rcases h with dir | ⟨content, file⟩ | ⟨created, -⟩
  · simp [dir]
  · simp [file]
  · cases created

/-- Two trees that differ in the contents of files at most. -/
def SameShape (t u : Tree) : Prop :=
  ∀ r, t.get? r = u.get? r ∨ ∃ a b, t.get? r = some (.file a) ∧ u.get? r = some (.file b)

theorem walkFrom_sameShape {u : Tree} (same : t.SameShape u) (mayCreate : Bool)
    (follow : Route → Text → List Step → Except Cause Route) (here : Route) (steps : List Step) :
    t.walkFrom mayCreate follow here steps = u.walkFrom mayCreate follow here steps := by
  induction steps generalizing here with
  | nil => rfl
  | cons step rest ih =>
    cases step with
    | stay => exact ih here
    | up => exact ih here.dropLast
    | name n =>
      simp only [walkFrom]
      rcases same (here ++ [n]) with h | ⟨a, b, ha, hb⟩
      · rw [h, ih]
      · rw [ha, hb]

theorem walkWithin_sameShape {u : Tree} (same : t.SameShape u) (mayCreate : Bool) (links : Nat) :
    t.walkWithin mayCreate links = u.walkWithin mayCreate links := by
  induction links generalizing mayCreate with
  | zero =>
    funext here steps
    exact walkFrom_sameShape same mayCreate _ here steps
  | succ links ih =>
    funext here steps
    simp only [walkWithin, ih]
    exact walkFrom_sameShape same mayCreate _ here steps

end ComponentForge.Tree

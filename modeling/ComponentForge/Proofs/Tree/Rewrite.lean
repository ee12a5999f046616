import ComponentForge.Proofs.Path
import ComponentForge.Proofs.Sequence
import ComponentForge.Proofs.Tree.Walk

/-!
# Files that can be read

A file that can be read through a path can be written through it. The write changes this file and
nothing else, whatever links lead to it, and the path goes on leading to the file.
-/

namespace ComponentForge.Tree

variable {t : Tree}

theorem checkPath_eq_ok_iff {path : Path} : checkPath path = .ok () ↔
    Char.ofNat 0 ∉ path.text ∧ path.text.byteSize < maxPathSize := by
  rw [checkPath, ← Nat.not_le]
  by_cases null : Char.ofNat 0 ∈ path.text
  · simp [null]
  · by_cases long : maxPathSize ≤ path.text.byteSize <;> simp [null, long]

/-- A path passes if its characters are some of a path that passes. -/
theorem checkPath_of_sublist {a b : Path} (h : a.text.Sublist b.text) (hb : checkPath b = .ok ()) :
    checkPath a = .ok () := by
  rw [checkPath_eq_ok_iff] at hb ⊢
  exact ⟨mt h.mem hb.1, Nat.lt_of_le_of_lt (Text.byteSize_le_of_sublist h) hb.2⟩

theorem checkPath_above {path : Path} (h : checkPath path = .ok ()) :
    checkPath path.above = .ok () :=
  checkPath_of_sublist path.above_text_prefix.sublist h

theorem resolve_eq_ok_iff {path : Path} {r : Route} : t.resolve path = .ok r ↔
    checkPath path = .ok () ∧ t.walk path.lookupSteps = .ok r := by
  rw [resolve, except_bind_eq_ok_iff]
  exact ⟨fun ⟨_, checked, walked⟩ => ⟨checked, walked⟩, fun ⟨checked, walked⟩ => ⟨(), checked, walked⟩⟩

/-- Where the last step is no name, a place is where the steps lead. -/
theorem place_eq_walk {front : List Step} {step : Step} (nameless : ∀ n, step ≠ .name n) :
    t.place (front ++ [step]) = t.walk (front ++ [step]) := by
  cases step with
  | name n => exact absurd rfl (nameless n)
  | _ => simp [place, walk]

theorem exists_of_leads_name {mid r : Route} {n : Text} {rest : List Step}
    (h : t.Leads mid (.name n :: rest) r) :
    ¬ maxNameSize < n.byteSize ∧ (t.get? (mid ++ [n])).isSome := by
  obtain ⟨links, h⟩ := h
  obtain ⟨follow, walked⟩ : ∃ follow, t.walkFrom false follow mid (.name n :: rest) = .ok r := by
    cases links with
    | zero => exact ⟨_, h⟩
    | succ links => exact ⟨_, h⟩
  obtain ⟨fits, enters⟩ := walkFrom_name_eq_ok_iff.1 walked
  refine ⟨fits, ?_⟩
  cases enters with
  | dir isDir _ => simp [isDir]
  | file isFile _ _ => simp [isFile]
  | free _ created _ _ => cases created
  | link isLink _ => simp [isLink]

/-- Where a walk leads to something, something stands at its last step. -/
theorem place_of_walk {steps : List Step} {r : Route} (h : t.walk steps = .ok r)
    (hr : (t.get? r).isSome) : ∃ q, t.place steps = .ok q ∧ (t.get? q).isSome := by
  rcases List.eq_nil_or_concat steps with rfl | ⟨front, last, rfl⟩
  · exact ⟨r, h, hr⟩
  · rw [List.concat_eq_append] at *
    cases last with
    | stay => exact ⟨r, by simpa [place] using h, hr⟩
    | up => exact ⟨r, by simpa [place] using h, hr⟩
    | name n =>
      obtain ⟨mid, hmid, standing, goes⟩ := walkWithin_append standing_nil (by simp) h
      obtain ⟨fits, isSome⟩ := exists_of_leads_name goes
      have above : t.walk front = .ok mid := hmid
      refine ⟨mid ++ [n], ?_, isSome⟩
      simp [place, above, standing.get?, fits, bind, Except.bind]

end ComponentForge.Tree

namespace ComponentForge.Access

open ComponentForge.Tree

variable {t : Tree}

theorem ofExcept_eq_ok_iff {α : Type} {look : Tree → Except Cause α} {a : α} {u : Tree} :
    Access.ofExcept look t = .ok a u ↔ u = t ∧ look t = .ok a := by
  rw [Access.ofExcept]
  cases look t with
  | error c => simp
  | ok b => simp [and_comm, eq_comm]

/-- An access that only looks fails without a change. -/
theorem ofExcept_error {α : Type} {look : Tree → Except Cause α} {c : Cause} {u : Tree}
    (h : Access.ofExcept look t = .error c u) : u = t := by
  rw [Access.ofExcept] at h
  split at h
  · cases h
  · exact (EStateM.Result.error.inj h).2.symm

theorem check_bind_run {α : Type} (path : Path) (more : Access α) (t : Tree) :
    (do check path; more) t = match checkPath path with
      | .ok _ => more t
      | .error c => .error c t := by
  cases h : checkPath path with
  | ok _ => exact bind_of_ok (ofExcept_eq_ok_iff.2 ⟨rfl, h⟩)
  | error c =>
    have refused : check path t = .error c t := by rw [check, ofExcept, h]
    exact bind_of_error refused

theorem check_bind_eq_ok_iff {α : Type} {path : Path} {more : Access α} {a : α} {u : Tree} :
    (do check path; more) t = .ok a u ↔ checkPath path = .ok () ∧ more t = .ok a u := by
  rw [check_bind_run]
  cases checkPath path <;> simp

theorem check_bind_eq_error_iff {α : Type} {path : Path} {more : Access α} {c : Cause} {u : Tree} :
    (do check path; more) t = .error c u ↔
      checkPath path = .error c ∧ u = t ∨ checkPath path = .ok () ∧ more t = .error c u := by
  rw [check_bind_run]
  cases checkPath path <;> simp [eq_comm]

theorem fileToWrite_eq_ok_iff {path : Path} {r : Route} {u : Tree} : fileToWrite path t = .ok r u ↔
    u = t ∧ checkPath path = .ok () ∧ path.asksForDirectory = false ∧
      t.walkToCreate path.steps = .ok r ∧ t.get? r ≠ some .dir := by
  rw [fileToWrite, ofExcept_eq_ok_iff]
  refine and_congr_right fun _ => ?_
  cases checkPath path with
  | error c => simp [bind, Except.bind]
  | ok _ =>
    cases path.asksForDirectory with
    | true => simp [throw, throwThe, MonadExceptOf.throw, bind, Except.bind]
    | false =>
      cases t.walkToCreate path.steps with
      | error c => simp [bind, Except.bind]
      | ok r' =>
        by_cases hdir : t.get? r' = some .dir
        · simp only [hdir, throw, throwThe, MonadExceptOf.throw, bind, Except.bind]
          simpa using fun same => same ▸ hdir
        · simp only [hdir, bind, Except.bind, pure, Except.pure]
          simpa using fun same => same ▸ hdir

/-- A write makes the directories above its file and then sets the file. -/
theorem write_eq_ok_iff {path : Path} {text : Text} {v : Tree} : write path text t = .ok () v ↔
    ∃ u r, makeParents path t = .ok () u ∧ fileToWrite path u = .ok r u ∧
      v = u.set r (.file (.text text)) := by
  rw [write, bind_eq_ok_iff]
  constructor
  · rintro ⟨⟨⟩, u, made, h⟩
    obtain ⟨r, w, file, set⟩ := bind_eq_ok_iff.1 h
    obtain ⟨rfl, -⟩ := fileToWrite_eq_ok_iff.1 file
    rw [modify_run] at set
    exact ⟨w, r, made, file, (EStateM.Result.ok.inj set).2.symm⟩
  · rintro ⟨u, r, made, file, rfl⟩
    exact ⟨(), u, made, by rw [bind_of_ok file, modify_run]⟩

/-- A write fails with the directories, or when they are made and nothing else. -/
theorem write_eq_error_iff {path : Path} {text : Text} {c : Cause} {u : Tree} :
    write path text t = .error c u ↔ makeParents path t = .error c u ∨
      makeParents path t = .ok () u ∧ fileToWrite path u = .error c u := by
  rw [write, bind_eq_error_iff]
  refine or_congr_right ⟨?_, fun ⟨made, failed⟩ => ⟨(), u, made, bind_of_error failed⟩⟩
  rintro ⟨⟨⟩, v, made, h⟩
  rcases bind_eq_error_iff.1 h with failed | ⟨r, w, -, set⟩
  · obtain rfl := ofExcept_error failed
    exact ⟨made, failed⟩
  · rw [modify_run] at set
    cases set

/-- Directories that are there already are made without any change. -/
theorem makeMoves_of_standing {above : List Step} {r : Route}
    (h : t.walk above.reverse = .ok r) (standing : t.Standing r) :
    makeMoves above t = .ok () t := by
  cases above with
  | nil => rfl
  | cons step above =>
    have isSome : (t.get? r).isSome := by simp [standing.get?]
    obtain ⟨q, placed, occupied⟩ := place_of_walk h isSome
    obtain ⟨node, hnode⟩ := Option.isSome_iff_exists.1 occupied
    rw [List.reverse_cons] at h placed
    have already : makeLast (above.reverse ++ [step]) t = .error .alreadyExists t := by
      simp [makeLast, placed, hnode]
    have isDir : t.isDir (above.reverse ++ [step]) := by
      simp [Tree.isDir, h, standing.get?]
    simp [makeMoves, makeAfter, already, isDir]

/-- The path leads to a file with this text at the route `r`. -/
structure ReadsAt (t : Tree) (path : Path) (r : Route) (text : Text) : Prop where
  checked : checkPath path = .ok ()
  walks : t.walk path.steps = .ok r
  holds : t.get? r = some (.file (.text text))
  bare : path.endsInSlash = false

variable {path : Path} {r : Route} {text : Text}

theorem read_eq_ok_iff {u : Tree} : read path t = .ok text u ↔
    u = t ∧ ∃ r, t.resolve path = .ok r ∧ t.get? r = some (.file (.text text)) := by
  rw [read, ofExcept_eq_ok_iff, except_bind_eq_ok_iff]
  refine and_congr_right fun _ => exists_congr fun r => and_congr_right fun _ => ?_
  cases hnode : t.get? r with
  | none => simp [throw, throwThe, MonadExceptOf.throw]
  | some node =>
    cases node with
    | dir => simp [throw, throwThe, MonadExceptOf.throw]
    | link target => simp [throw, throwThe, MonadExceptOf.throw]
    | file content => cases content <;> simp [throw, throwThe, MonadExceptOf.throw, pure, Except.pure]

theorem lookupSteps_eq (h : path.endsInSlash = false) : path.lookupSteps = path.steps := by
  simp [Path.lookupSteps, h]

/-- A file is not asked to be a directory. -/
theorem bare_of_walk {content : Content} (walked : t.walk path.lookupSteps = .ok r)
    (hr : t.get? r = some (.file content)) : path.endsInSlash = false := by
  rw [← Bool.not_eq_true]
  intro slash
  have isDir := isDir_of_lookupSteps standing_nil slash walked
  simp [hr] at isDir

theorem readsAt_of_read {u : Tree} (h : read path t = .ok text u) :
    u = t ∧ ∃ r, ReadsAt t path r text := by
  obtain ⟨rfl, r, resolved, holds⟩ := read_eq_ok_iff.1 h
  obtain ⟨checked, walked⟩ := resolve_eq_ok_iff.1 resolved
  have bare := bare_of_walk walked holds
  rw [lookupSteps_eq bare] at walked
  exact ⟨rfl, r, checked, walked, holds, bare⟩

namespace ReadsAt

theorem resolve (h : ReadsAt t path r text) : t.resolve path = .ok r :=
  resolve_eq_ok_iff.2 ⟨h.checked, by rw [lookupSteps_eq h.bare]; exact h.walks⟩

theorem read (h : ReadsAt t path r text) : read path t = .ok text t :=
  read_eq_ok_iff.2 ⟨rfl, r, h.resolve, h.holds⟩

theorem ne_nil (h : ReadsAt t path r text) : r ≠ [] := by
  rintro rfl
  have := h.holds
  simp [get?] at this

theorem exists? (h : ReadsAt t path r text) : exists? t path := by
  obtain ⟨q, placed, occupied⟩ := place_of_walk h.walks (by simp [h.holds])
  obtain ⟨node, hnode⟩ := Option.isSome_iff_exists.1 occupied
  simp [Access.exists?, find, ofExcept, bind, Except.bind, h.checked, lookupSteps_eq h.bare, placed,
    hnode, pure, Except.pure]

/-- The directories above the file stand, so that nothing is made for a write. -/
theorem makeParents (h : ReadsAt t path r text) : makeParents path t = .ok () t := by
  refine check_bind_eq_ok_iff.2 ⟨checkPath_above h.checked, ?_⟩
  have moved := walkWithin_thins (thins_filter path.steps) h.walks
  have parts : path.steps.filter (· != .stay) = path.moves := rfl
  rw [parts] at moved
  rcases List.eq_nil_or_concat path.moves with hmoves | ⟨front, last, hmoves⟩
  · rw [hmoves]
    rfl
  · rw [List.concat_eq_append] at hmoves
    rw [hmoves] at moved ⊢
    obtain ⟨mid, hmid, standing, -⟩ := walkWithin_append standing_nil (by simp) moved
    rw [List.reverse_append, List.reverse_singleton, List.singleton_append, List.tail_cons]
    refine makeMoves_of_standing (r := mid) ?_ standing
    rw [List.reverse_reverse]
    exact hmid

theorem write (h : ReadsAt t path r text) (new : Text) :
    write path new t = .ok () (t.set r (.file (.text new))) := by
  have created : t.walkToCreate path.steps = .ok r :=
    walkWithin_create standing_nil h.holds h.walks
  have no_directory : path.asksForDirectory = false := by simp [Path.asksForDirectory, h.bare]
  have filled : fileToWrite path t = .ok r t :=
    fileToWrite_eq_ok_iff.2 ⟨rfl, h.checked, no_directory, created, by simp [h.holds]⟩
  rw [Access.write, bind_of_ok h.makeParents, bind_of_ok filled, modify_run]

theorem sameShape_set (h : ReadsAt t path r text) (new : Text) :
    t.SameShape (t.set r (.file (.text new))) := by
  intro s
  rw [get?_set t h.ne_nil]
  by_cases hs : s = r
  · subst hs
    exact Or.inr ⟨_, .text new, h.holds, by simp⟩
  · exact Or.inl (by simp [hs])

/-- After the write the path reads as the new text. -/
theorem set (h : ReadsAt t path r text) (new : Text) :
    ReadsAt (t.set r (.file (.text new))) path r new where
  checked := h.checked
  walks := by
    rw [walk, ← walkWithin_sameShape (h.sameShape_set new)]
    exact h.walks
  holds := by simp [get?_set t h.ne_nil]
  bare := h.bare

end ReadsAt

end ComponentForge.Access

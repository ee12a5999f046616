import ComponentForge.Proofs.Tree.Effects

/-!
# Files that are created

Links may stand in the trees here. A write to a path that leads nowhere leaves all that was there as
it was: the directories that are made for it are new, the first of them is the first name on the way
at which nothing stood, and below it there is nothing else yet.
-/

namespace ComponentForge.Tree

open Access

/-- Everything stands in a directory. -/
def Closed (t : Tree) : Prop :=
  ∀ r n, (t.get? (r ++ [n])).isSome → t.get? r = some .dir

/-- What stands in the first tree stands unchanged in the second. -/
def SurvivesIn (t u : Tree) : Prop :=
  ∀ r node, t.get? r = some node → u.get? r = some node

/-- What stands in the first tree stands in the second, a file perhaps with another content. -/
def KeepsKinds (t u : Tree) : Prop :=
  ∀ r node, t.get? r = some node → u.get? r = some node ∨
    ∃ old new, node = .file old ∧ u.get? r = some (.file new)

/-- The second tree has more directories, and is the first one otherwise. -/
def GainsDirs (t u : Tree) : Prop :=
  ∀ r, u.get? r = t.get? r ∨ t.get? r = none ∧ u.get? r = some .dir

variable {t u : Tree} {here r : Route} {steps : List Step} {links : Nat}

theorem closed_of_entries (h : ∀ e ∈ t.entries, t.get? e.1.dropLast = some .dir) : t.Closed := by
  intro r n occupied
  rw [get?, if_neg (by simp)] at occupied
  obtain ⟨node, hnode⟩ := Option.isSome_iff_exists.1 occupied
  obtain ⟨before, after, entries, -⟩ := List.lookup_eq_some_iff.1 hnode
  have stands := h (r ++ [n], node) (by simp [entries])
  rwa [List.dropLast_concat] at stands

theorem SurvivesIn.refl (t : Tree) : t.SurvivesIn t :=
  fun _ _ h => h

theorem SurvivesIn.set_new (h : t.SurvivesIn u) (hr : u.get? r = none) (node : Node) :
    t.SurvivesIn (u.set r node) := by
  intro s kept hs
  have hne : r ≠ [] := by
    rintro rfl
    simp [get?] at hr
  rw [get?_set u hne, if_neg]
  · exact h s kept hs
  · rintro rfl
    simp [h s kept hs] at hr

theorem SurvivesIn.keepsKinds (h : t.SurvivesIn u) : t.KeepsKinds u :=
  fun r node hr => Or.inl (h r node hr)

theorem KeepsKinds.of_ne_file (h : t.KeepsKinds u) {node : Node} (hr : t.get? r = some node)
    (hne : ∀ content, node ≠ .file content) : u.get? r = some node := by
  rcases h r node hr with same | ⟨old, -, rfl, -⟩
  · exact same
  · exact absurd rfl (hne old)

theorem KeepsKinds.ends (h : t.KeepsKinds u) (ends : t.Ends false r) : u.Ends false r := by
  rcases ends with dir | ⟨content, file⟩ | ⟨created, -⟩
  · exact Or.inl (h.of_ne_file dir (by simp))
  · rcases h r _ file with same | ⟨-, new, -, hnew⟩
    · exact Or.inr (Or.inl ⟨content, same⟩)
    · exact Or.inr (Or.inl ⟨new, hnew⟩)
  · cases created

theorem GainsDirs.refl (t : Tree) : t.GainsDirs t :=
  fun _ => Or.inl rfl

theorem GainsDirs.survivesIn (h : t.GainsDirs u) : t.SurvivesIn u := by
  intro r node hr
  rcases h r with same | ⟨none, -⟩
  · rw [same, hr]
  · simp [hr] at none

theorem GainsDirs.set_dir (h : t.GainsDirs u) (hr : u.get? r = none) :
    t.GainsDirs (u.set r .dir) := by
  intro s
  have hne : r ≠ [] := by
    rintro rfl
    simp [get?] at hr
  rw [get?_set u hne]
  by_cases hs : s = r
  · subst hs
    rw [if_pos rfl]
    rcases h s with same | ⟨none, -⟩
    · exact Or.inr ⟨same ▸ hr, rfl⟩
    · exact Or.inr ⟨none, rfl⟩
  · rw [if_neg hs]
    exact h s

section Walks

variable {follow follow' : Route → Text → List Step → Except Cause Route} {mayCreate : Bool}

theorem walkFrom_keeps (keeps : t.KeepsKinds u) (ends : u.Ends false r)
    (hfollow : ∀ here target rest, follow here target rest = .ok r →
      follow' here target rest = .ok r)
    (h : t.walkFrom mayCreate follow here steps = .ok r) :
    u.walkFrom false follow' here steps = .ok r := by
  induction steps generalizing here with
  | nil => exact h
  | cons step rest ih =>
    cases step with
    | stay => exact ih h
    | up => exact ih h
    | name n =>
      obtain ⟨fits, enters⟩ := walkFrom_name_eq_ok_iff.1 h
      refine walkFrom_name_eq_ok_iff.2 ⟨fits, ?_⟩
      cases enters with
      | dir isDir goes => exact .dir (keeps.of_ne_file isDir (by simp)) (ih goes)
      | file isFile last here_ends =>
        rcases keeps _ _ isFile with same | ⟨-, new, -, hnew⟩
        · exact .file same last here_ends
        · exact .file hnew last here_ends
      | free _ _ last here_ends =>
        -- only the end of the walk may be created, and there something stands now
        subst last here_ends
        rcases ends with dir | ⟨content, file⟩ | ⟨created, -⟩
        · exact .dir dir rfl
        · exact .file file rfl rfl
        · cases created
      | link isLink goes =>
        exact .link (keeps.of_ne_file isLink (by simp)) (hfollow here _ rest goes)

/-- Where a walk came to something, or was to create what is there now, a walk comes to it again. -/
theorem walkWithin_keeps (keeps : t.KeepsKinds u) (ends : u.Ends false r)
    (h : t.walkWithin mayCreate links here steps = .ok r) :
    u.walkWithin false links here steps = .ok r := by
  induction links generalizing here steps with
  | zero =>
    refine walkFrom_keeps keeps ends ?_ h
    intro here target rest h
    cases h
  | succ links ih =>
    refine walkFrom_keeps keeps ends ?_ h
    intro here target rest h
    simp only [Bool.false_and, Bool.false_eq_true, if_false] at h ⊢
    split at h
    · obtain ⟨d, -, thrown⟩ := except_bind_eq_ok_iff.1 h
      cases thrown
    · exact ih h

/-- A walk finds its way also where more stands. -/
theorem walkWithin_survivesIn (survives : t.SurvivesIn u) (standing : t.Standing here)
    (h : t.walkWithin false links here steps = .ok r) :
    u.walkWithin false links here steps = .ok r :=
  walkWithin_keeps survives.keepsKinds (survives.keepsKinds.ends (walkWithin_ends standing h)) h

/-- A walk that may create its last name, and comes to something that exists, only looked it up. -/
theorem walkWithin_of_create (standing : t.Standing here) (hr : (t.get? r).isSome)
    (h : t.walkWithin true links here steps = .ok r) :
    t.walkWithin false links here steps = .ok r :=
  walkWithin_keeps (SurvivesIn.refl t).keepsKinds ((walkWithin_ends standing h).of_isSome hr) h

/-- What a walk enters where nothing stood is a new directory. -/
theorem Enters.of_new {n : Text} {rest : List Step} {P : Prop}
    (h : u.Enters false follow here n rest r) (gains : t.GainsDirs u)
    (new : t.get? (here ++ [n]) = none)
    (next : u.get? (here ++ [n]) = some .dir →
      u.walkFrom false follow (here ++ [n]) rest = .ok r → P) : P := by
  have gained : u.get? (here ++ [n]) = none ∨ u.get? (here ++ [n]) = some .dir :=
    (gains (here ++ [n])).imp (fun same => same.trans new) And.right
  cases h with
  | dir isDir goes => exact next isDir goes
  | file isFile _ _ => simp [isFile] at gained
  | free _ created _ _ => cases created
  | link isLink _ => simp [isLink] at gained

/-- Below a directory that is new there are new directories only. -/
theorem dir_of_walkFrom_new (closed : t.Closed) (gains : t.GainsDirs u) (hup : .up ∉ steps)
    (new : t.get? here = none) (hdir : u.get? here = some .dir)
    (h : u.walkFrom false follow here steps = .ok r) : u.get? r = some .dir := by
  induction steps generalizing here with
  | nil => exact Except.ok.inj h ▸ hdir
  | cons step rest ih =>
    rw [List.mem_cons, not_or] at hup
    cases step with
    | up => exact absurd rfl hup.1
    | stay => exact ih hup.2 new hdir h
    | name n =>
      have empty : t.get? (here ++ [n]) = none := by
        rw [← Option.not_isSome_iff_eq_none]
        intro occupied
        simp [closed here n occupied] at new
      obtain ⟨-, enters⟩ := walkFrom_name_eq_ok_iff.1 h
      exact enters.of_new gains empty fun isDir goes => ih hup.2 empty isDir goes

end Walks

/-- On the way along the steps comes a name at which nothing stands. -/
def Lacks (t : Tree) (steps : List Step) : Prop :=
  ∃ front n rest d, steps = front ++ .name n :: rest ∧
    t.walkWithin false maxLinks [] front = .ok d ∧ t.get? (d ++ [n]) = none

theorem Lacks.append (h : t.Lacks steps) (more : List Step) : t.Lacks (steps ++ more) := by
  obtain ⟨front, n, rest, d, rfl, walked, none⟩ := h
  exact ⟨front, n, rest ++ more, d, by simp, walked, none⟩

/-- Each step up is taken from where the steps before it lead. -/
def RisesWithin (t : Tree) (steps : List Step) : Prop :=
  ∀ front rest, steps = front ++ .up :: rest → ∃ d, t.walkWithin false maxLinks [] front = .ok d

theorem risesWithin_of_no_up (hup : .up ∉ steps) : t.RisesWithin steps := by
  rintro front rest rfl
  simp at hup

/-- So it is where the directory above the last name is there. -/
theorem risesWithin_of_walk {n : Text} (h : t.walkWithin false maxLinks [] steps = .ok r) :
    t.RisesWithin (steps ++ [.name n]) := by
  intro front rest split
  rcases List.eq_nil_or_concat rest with rfl | ⟨rest, last, rfl⟩
  · have ends := (List.append_inj' split rfl).2
    simp at ends
  · rw [List.concat_eq_append, ← List.cons_append, ← List.append_assoc] at split
    rw [(List.append_inj' split rfl).1] at h
    obtain ⟨mid, walked, -⟩ := walkWithin_append standing_nil (by simp) h
    exact ⟨mid, walked⟩

/-- So it is when the steps that stay are left out. -/
theorem RisesWithin.moves (h : t.RisesWithin steps) :
    t.RisesWithin (steps.filter (· != .stay)) := by
  intro front rest hsplit
  obtain ⟨before, after, rfl, rfl, hafter⟩ := List.filter_eq_append_iff.1 hsplit
  obtain ⟨idle, more, rfl, stays, -, -⟩ := List.filter_eq_cons_iff.1 hafter
  obtain ⟨d, walked⟩ := h (before ++ idle) more (by simp)
  have idle_gone : idle.filter (· != .stay) = [] := List.filter_eq_nil_iff.2 stays
  have moved := walkWithin_thins (thins_filter (before ++ idle)) walked
  rw [List.filter_append, idle_gone, List.append_nil] at moved
  exact ⟨d, moved⟩

/-- Behind a name that is lacking there is no way up. -/
theorem RisesWithin.up_notMem {front rest : List Step} {n : Text} {d : Route}
    (h : t.RisesWithin (front ++ .name n :: rest))
    (reached : t.walkWithin false maxLinks [] front = .ok d) (lacking : t.get? (d ++ [n]) = none) :
    .up ∉ rest := by
  intro mem
  obtain ⟨before, after, rfl⟩ := List.append_of_mem mem
  obtain ⟨e, walked⟩ := h (front ++ .name n :: before) after (by simp)
  obtain ⟨mid, passed, -, goes⟩ := walkWithin_append standing_nil (by simp) walked
  obtain rfl : mid = d := Except.ok.inj (passed.symm.trans reached)
  have occupied := (exists_of_leads_name goes).2
  simp [lacking] at occupied

/-- Where a name was lacking, directories that were made since then lead to directories only. -/
theorem Lacks.dir_of_walkWithin (h : t.Lacks steps) (closed : t.Closed) (gains : t.GainsDirs u)
    (rises : t.RisesWithin steps) (walked : u.walkWithin false maxLinks [] steps = .ok r) :
    u.get? r = some .dir := by
  obtain ⟨front, n, rest, d, rfl, reached, lacking⟩ := h
  have hup := rises.up_notMem reached lacking
  obtain ⟨mid, passed, -, links, goes⟩ := walkWithin_append standing_nil (by simp) walked
  have again := walkWithin_survivesIn gains.survivesIn standing_nil reached
  obtain rfl : mid = d := Except.ok.inj (passed.symm.trans again)
  obtain ⟨follow, from_there⟩ := walkWithin_eq_walkFrom u false links
  rw [from_there] at goes
  obtain ⟨-, enters⟩ := walkFrom_name_eq_ok_iff.1 goes
  exact enters.of_new gains lacking fun isDir goes =>
    dir_of_walkFrom_new closed gains hup lacking isDir goes

end ComponentForge.Tree

namespace ComponentForge.Access

open ComponentForge.Tree

variable {t u : Tree} {above : List Step} {path : Path} {r : Route} {text : Text}

theorem keeps_makeMoves_gainsDirs (t : Tree) (above : List Step) :
    Keeps t.GainsDirs (fun _ => True) (makeMoves above) := by
  induction above with
  | nil => exact Keeps.pure ()
  | cons step above ih =>
    refine keeps_makeAfter ih (keeps_makeLast fun u v gains made => ?_)
    obtain ⟨r, -, none, rfl⟩ := makeLast_ok made
    exact gains.set_dir none

theorem keeps_makeParents_gainsDirs (t : Tree) (path : Path) :
    Keeps t.GainsDirs (fun _ => True) (makeParents path) :=
  (keeps_check _).bind fun _ => keeps_makeMoves_gainsDirs t _

/-- Only at the place of a name nothing may stand. -/
theorem exists_name_of_place {step : Step} (h : t.place (above ++ [step]) = .ok r)
    (free : t.get? r = none) :
    ∃ n d, step = .name n ∧ r = d ++ [n] ∧ t.walkWithin false maxLinks [] above = .ok d := by
  by_cases named : ∃ n, step = .name n
  · obtain ⟨n, rfl⟩ := named
    obtain ⟨d, walked, -, -, rfl⟩ := place_concat.1 h
    exact ⟨n, d, rfl, rfl, walked⟩
  · have walked : t.walk (above ++ [step]) = .ok r := place_eq_walk (not_exists.1 named) ▸ h
    obtain ⟨mid, -, standing, goes⟩ := walkWithin_append standing_nil (by simp) walked
    have dir := (standing.of_leads (not_exists.1 named) goes).get?
    simp [free] at dir

/-- If directories were made at all, a name was lacking on the way. -/
theorem eq_or_lacks_of_makeMoves (h : makeMoves above t = .ok () u) :
    u = t ∨ t.Lacks above.reverse := by
  induction above generalizing u with
  | nil => exact Or.inl (EStateM.Result.ok.inj h).2.symm
  | cons step above ih =>
    simp only [makeMoves, makeAfter] at h
    cases hlast : makeLast (above.reverse ++ [step]) t with
    | ok a v =>
      obtain ⟨r, placed, free, -⟩ := makeLast_ok hlast
      obtain ⟨n, d, rfl, rfl, walked⟩ := exists_name_of_place placed free
      exact Or.inr ⟨above.reverse, n, [], d, by simp, walked, free⟩
    | error c v =>
      obtain rfl := makeLast_error hlast
      cases c with
      | notFound =>
        simp only [hlast] at h
        obtain ⟨⟨⟩, w, made, last⟩ := bind_eq_ok_iff.1 h
        rcases ih made with rfl | lacks
        · simp only [unlessDir, hlast] at last
          split at last
          · exact Or.inl (EStateM.Result.ok.inj last).2.symm
          · cases last
        · rw [List.reverse_cons]
          exact Or.inr (lacks.append _)
      | _ =>
        simp only [hlast] at h
        split at h
        · exact Or.inl (EStateM.Result.ok.inj h).2.symm
        · cases h

/-- The route at which a file is written is that of something which a walk finds, or it is new. -/
theorem none_of_fileToWrite (closed : t.Closed) (rises : t.RisesWithin path.steps)
    (free : ∀ r, t.walk path.steps = .ok r → (t.get? r).isSome → t.get? r = some .dir)
    (made : makeParents path t = .ok () u) {v : Tree}
    (h : fileToWrite path u = .ok r v) : u.get? r = none := by
  obtain ⟨rfl, -, -, created, hdir⟩ := fileToWrite_eq_ok_iff.1 h
  rw [← Option.not_isSome_iff_eq_none]
  intro occupied
  apply hdir
  have found := walkWithin_of_create standing_nil occupied created
  have gains := (keeps_makeParents_gainsDirs t _).of_ok (.refl t) made
  rcases eq_or_lacks_of_makeMoves (check_bind_eq_ok_iff.1 made).2 with rfl | lacks
  · exact free r found occupied
  · have moved := walkWithin_thins (thins_filter path.steps) found
    have level := rises.moves
    have parts : path.steps.filter (· != .stay) = path.moves := rfl
    rw [parts] at moved level
    rcases List.eq_nil_or_concat path.moves with hmoves | ⟨front, last, hmoves⟩
    · rw [hmoves] at moved
      exact (standing_of_walkWithin_nil moved).get?
    · rw [List.concat_eq_append] at hmoves
      rw [hmoves, List.reverse_append, List.reverse_singleton, List.singleton_append,
        List.tail_cons, List.reverse_reverse] at lacks
      rw [hmoves] at moved level
      exact (lacks.append [last]).dir_of_walkWithin closed gains level moved

/-- A write that fails has made directories at most. -/
theorem write_error {c : Cause} (h : write path text t = .error c u) : t.GainsDirs u := by
  have parents := keeps_makeParents_gainsDirs t path
  rcases write_eq_error_iff.1 h with failed | ⟨made, -⟩
  · exact (parents.of_error (.refl t) failed).1
  · exact parents.of_ok (.refl t) made

/-- A write leaves all that was there if the path leads to nothing that it could fill. -/
theorem survivesIn_write (closed : t.Closed) (rises : t.RisesWithin path.steps)
    (free : checkPath path = .ok () → path.asksForDirectory = false →
      ∀ r, t.walk path.steps = .ok r → (t.get? r).isSome → t.get? r = some .dir) :
    t.SurvivesIn ((write path text).after t) := by
  cases h : write path text t with
  | error c u => exact after_of_error h ▸ (write_error h).survivesIn
  | ok a v =>
    obtain ⟨u, r, made, file, rfl⟩ := write_eq_ok_iff.1 h
    rw [after_of_ok h]
    have gains := (keeps_makeParents_gainsDirs t _).of_ok (.refl t) made
    obtain ⟨-, checked, directory, -⟩ := fileToWrite_eq_ok_iff.1 file
    have new := none_of_fileToWrite closed rises (free checked directory) made file
    exact gains.survivesIn.set_new new _

/-- Below the working directory a path leads where it leads by itself. -/
theorem walk_of_dot_join (h : t.walk ((Path.ofString ".").join path).steps = .ok r) :
    t.walk path.steps = .ok r := by
  rcases path.steps_dot_join with same | stays
  · rwa [same] at h
  · rw [stays] at h
    obtain ⟨follow, from_root⟩ := walkWithin_eq_walkFrom t false maxLinks
    rw [walk, from_root] at h ⊢
    exact h

/-- With a slash at its end a path leads to a directory, if it does not ask a name to be one. -/
theorem dir_of_endsInSlash (slash : path.endsInSlash) (directory : path.asksForDirectory = false)
    (h : t.walk path.steps = .ok r) : t.get? r = some .dir := by
  rcases List.eq_nil_or_concat path.steps with hsteps | ⟨front, last, hsteps⟩
  · rw [hsteps] at h
    exact (standing_of_walkWithin_nil h).get?
  · rw [List.concat_eq_append] at hsteps
    simp only [Path.asksForDirectory, slash, hsteps, List.getLast?_concat, Bool.true_and]
      at directory
    rw [hsteps] at h
    obtain ⟨mid, -, standing, goes⟩ := walkWithin_append standing_nil (by simp) h
    refine (standing.of_leads ?_ goes).get?
    rintro n rfl
    simp at directory

/-- Writing below the working directory to a path that leads nowhere loses nothing. -/
theorem survivesIn_write_of_not_reaches (closed : t.Closed) (hup : .up ∉ path.steps)
    (free : t.reaches path = false) :
    t.SurvivesIn ((write ((Path.ofString ".").join path) text).after t) := by
  have level : .up ∉ ((Path.ofString ".").join path).steps := by
    rcases path.steps_dot_join with same | stays
    · rwa [same]
    · simpa [stays] using hup
  refine survivesIn_write closed (risesWithin_of_no_up level)
    fun checked directory r walked occupied => ?_
  cases slash : path.endsInSlash with
  | true => exact dir_of_endsInSlash (Path.endsInSlash_dot_join slash) directory walked
  | false =>
    have fine := checkPath_of_sublist (Path.ofString "." |>.text_sublist_join path) checked
    have resolved : t.resolve path = .ok r :=
      resolve_eq_ok_iff.2 ⟨fine, (lookupSteps_eq slash).symm ▸ walk_of_dot_join walked⟩
    simp [reaches, resolved, occupied] at free

end ComponentForge.Access

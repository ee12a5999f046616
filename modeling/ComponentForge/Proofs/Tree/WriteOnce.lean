import ComponentForge.Proofs.Tree.Creation

/-!
# Files written once

A file that users go on editing is written only where its path finds nothing. Between the look and
the write the directories above the file are made, and they can open a way that was closed before:
a step up from a directory that was missing leads back to what was there. This is the only way in
which such a write reaches a file, and then no more than the content of this file is lost.
-/

namespace ComponentForge.Tree

open Access

variable {t u : Tree} {r : Route}

section Fill

variable (hdir : u.get? r ≠ some .dir) (hlink : ∀ target, u.get? r ≠ some (.link target))

include hdir

theorem ne_nil_of_ne_dir : r ≠ [] := by
  rintro rfl
  exact hdir rfl

include hlink

theorem KeepsKinds.set_file (h : t.KeepsKinds u) (content : Content) :
    t.KeepsKinds (u.set r (.file content)) := by
  intro s node hs
  rw [get?_set u (ne_nil_of_ne_dir hdir)]
  by_cases at_r : s = r
  · subst at_r
    rw [if_pos rfl]
    rcases h s node hs with same | ⟨old, new, rfl, -⟩
    · cases node with
      | dir => exact absurd same hdir
      | file old => exact Or.inr ⟨old, content, rfl, rfl⟩
      | link target => exact absurd same (hlink target)
    · exact Or.inr ⟨old, content, rfl, rfl⟩
  · rw [if_neg at_r]
    exact h s node hs

/-- A file that is filled costs what it held, if it was there. -/
theorem SurvivesIn.set_file_iff (h : t.SurvivesIn u) (content : Content) :
    t.SurvivesIn (u.set r (.file content)) ↔
      ∀ old, t.get? r = some (.file old) → old = content := by
  have hne := ne_nil_of_ne_dir hdir
  constructor
  · intro survives old hold
    have still := survives r _ hold
    rw [get?_set u hne, if_pos rfl] at still
    exact (Node.file.inj (Option.some.inj still)).symm
  · intro same s node hs
    rw [get?_set u hne]
    by_cases at_r : s = r
    · subst at_r
      have stays := h s node hs
      cases node with
      | dir => exact absurd stays hdir
      | file old => rw [if_pos rfl, same old hs]
      | link target => exact absurd stays (hlink target)
    · rw [if_neg at_r]
      exact h s node hs

end Fill

/-- Nothing is found at the path, but when the directories above it are made, it leads to a file that
was there before and does not hold the text. -/
def Detours (t : Tree) (path : Path) (text : Text) : Prop :=
  exists? t path = false ∧ ∃ u r old, makeParents path t = .ok () u ∧ u.resolve path = .ok r ∧
    t.get? r = some (.file old) ∧ old ≠ .text text

end ComponentForge.Tree

namespace ComponentForge.Access

open ComponentForge.Tree

variable {t u v : Tree} {path : Path} {r : Route} {text : Text}

/-- The file that is to be written is no link, whatever links lead to it. -/
theorem ne_link_of_fileToWrite (h : fileToWrite path t = .ok r u) (target : Text) :
    t.get? r ≠ some (.link target) := by
  obtain ⟨-, -, -, created, -⟩ := fileToWrite_eq_ok_iff.1 h
  rcases walkWithin_ends standing_nil created with dir | ⟨content, file⟩ | ⟨-, none⟩
  · simp [dir]
  · simp [file]
  · simp [none]

/-- What was written can be read through the same path. -/
theorem readsAt_of_fileToWrite (h : fileToWrite path t = .ok r u) (text : Text) :
    ReadsAt (t.set r (.file (.text text))) path r text := by
  obtain ⟨-, checked, directory, created, hdir⟩ := fileToWrite_eq_ok_iff.1 h
  have keeps := (SurvivesIn.refl t).keepsKinds.set_file hdir (ne_link_of_fileToWrite h) (.text text)
  have holds : (t.set r (.file (.text text))).get? r = some (.file (.text text)) := by
    rw [get?_set t (ne_nil_of_ne_dir hdir), if_pos rfl]
  have walks : (t.set r (.file (.text text))).walk path.steps = .ok r :=
    walkWithin_keeps keeps (Or.inr (Or.inl ⟨_, holds⟩)) created
  refine ⟨checked, walks, holds, ?_⟩
  rw [← Bool.not_eq_true]
  intro slash
  simp [dir_of_endsInSlash slash directory walks] at holds

/-- A file to which the path leads once the directories above are made is the one that is written. -/
theorem write_of_resolve (made : makeParents path t = .ok () u) (resolved : u.resolve path = .ok r)
    {old : Content} (hr : u.get? r = some (.file old)) :
    write path text t = .ok () (u.set r (.file (.text text))) := by
  obtain ⟨checked, walked⟩ := resolve_eq_ok_iff.1 resolved
  have bare := bare_of_walk walked hr
  have directory : path.asksForDirectory = false := by simp [Path.asksForDirectory, bare]
  rw [lookupSteps_eq bare] at walked
  have created : u.walkToCreate path.steps = .ok r := walkWithin_create standing_nil hr walked
  refine write_eq_ok_iff.2 ⟨u, r, made, ?_, rfl⟩
  exact fileToWrite_eq_ok_iff.2 ⟨rfl, checked, directory, created, by simp [hr]⟩

/-- Where nothing is found a walk leads to directories at most. -/
theorem dir_of_walk_of_missing (missing : exists? t path = false) (checked : checkPath path = .ok ())
    (directory : path.asksForDirectory = false) (walked : t.walk path.steps = .ok r)
    (occupied : (t.get? r).isSome) : t.get? r = some .dir := by
  cases slash : path.endsInSlash with
  | true => exact dir_of_endsInSlash slash directory walked
  | false =>
    obtain ⟨q, placed, isSome⟩ := place_of_walk walked occupied
    obtain ⟨node, hnode⟩ := Option.isSome_iff_exists.1 isSome
    have found := find_eq_ok_iff.2 ⟨rfl, checked, (lookupSteps_eq slash).symm ▸ placed, hnode⟩
    simp [exists?_iff.2 ⟨q, node, found⟩] at missing

/-- A written file loses what it held before, if it stood there, and nothing else is lost. -/
theorem survivesIn_of_write (missing : exists? t path = false)
    (wrote : write path text t = .ok () v) : t.SurvivesIn v ↔ ¬ t.Detours path text := by
  constructor
  · rintro survives ⟨-, u, r, old, made, resolved, hr, hne⟩
    have gains := (keeps_makeParents_gainsDirs t _).of_ok (.refl t) made
    have filled : write path text t = .ok () (u.set r (.file (.text text))) :=
      write_of_resolve made resolved (gains.survivesIn r _ hr)
    obtain rfl := (EStateM.Result.ok.inj (filled.symm.trans wrote)).2
    have stands := gains.survivesIn r _ hr
    have hdir : u.get? r ≠ some .dir := by simp [stands]
    have hlink : ∀ target, u.get? r ≠ some (.link target) := by simp [stands]
    exact hne ((gains.survivesIn.set_file_iff hdir hlink _).1 survives old hr)
  · intro direct
    obtain ⟨u, r, made, file, rfl⟩ := write_eq_ok_iff.1 wrote
    have gains := (keeps_makeParents_gainsDirs t _).of_ok (.refl t) made
    obtain ⟨-, checked, -, created, hdir⟩ := fileToWrite_eq_ok_iff.1 file
    have bare := (readsAt_of_fileToWrite file text).bare
    -- A file that was there and is filled was reached by a walk through the new directories.
    refine (gains.survivesIn.set_file_iff hdir (ne_link_of_fileToWrite file) _).2 fun old hr => ?_
    refine Decidable.of_not_not fun hne => direct ⟨missing, u, r, old, made, ?_, hr, hne⟩
    have occupied : (u.get? r).isSome := by simp [gains.survivesIn r _ hr]
    rw [resolve_eq_ok_iff, lookupSteps_eq bare]
    exact ⟨checked, walkWithin_of_create standing_nil occupied created⟩

/-- A detour ends in a write. -/
theorem exists_write_of_detours (detours : t.Detours path text) :
    ∃ v, write path text t = .ok () v := by
  obtain ⟨-, u, r, old, made, resolved, hr, -⟩ := detours
  have gains := (keeps_makeParents_gainsDirs t _).of_ok (.refl t) made
  exact ⟨_, write_of_resolve made resolved (gains.survivesIn r _ hr)⟩

/-- A detour takes a step up from where nothing stood. -/
theorem not_risesWithin_of_detours (closed : t.Closed) (detours : t.Detours path text) :
    ¬ t.RisesWithin path.steps := by
  intro rises
  obtain ⟨v, wrote⟩ := exists_write_of_detours detours
  have survives := @survivesIn_write t path text closed rises
    fun checked directory _ walked occupied =>
      dir_of_walk_of_missing detours.1 checked directory walked occupied
  rw [after_of_ok wrote] at survives
  exact (survivesIn_of_write detours.1 wrote).1 survives detours

/-- A file that is written once is skipped without any change where something exists. Otherwise it is
written and can be read, or the attempt fails after making directories. Kinds of nodes never change. A
content is lost where the path detours and nowhere else, and it detours only with a step up from where
nothing stood. -/
theorem writeOnce_keeps (closed : t.Closed) (path : Path) (text : Text) :
    (match writeOnce path text t with
      | .ok .skipped u => exists? t path = true ∧ u = t
      | .ok .written u => exists? t path = false ∧ read path u = .ok text u
      | .error _ u => exists? t path = false ∧ t.GainsDirs u) ∧
    t.KeepsKinds ((writeOnce path text).after t) ∧
    (t.SurvivesIn ((writeOnce path text).after t) ↔ ¬ t.Detours path text) ∧
    (t.Detours path text → ¬ t.RisesWithin path.steps) := by
  cases found : exists? t path with
  | true =>
    have skipped : writeOnce path text t = .ok .skipped t := writeOnce_of_exists found
    rw [after_of_ok skipped, skipped]
    have direct : ¬ t.Detours path text := fun detours => by simp [detours.1] at found
    have same := SurvivesIn.refl t
    exact ⟨⟨rfl, rfl⟩, same.keepsKinds, iff_of_true same direct, not_risesWithin_of_detours closed⟩
  | false =>
    have once : writeOnce path text t = _ := writeOnce_of_missing found
    cases wrote : write path text t with
    | ok a v =>
      rw [wrote] at once
      rw [after_of_ok once, once]
      obtain ⟨u, r, made, file, rfl⟩ := write_eq_ok_iff.1 wrote
      have gains := (keeps_makeParents_gainsDirs t _).of_ok (.refl t) made
      obtain ⟨-, -, -, -, hdir⟩ := fileToWrite_eq_ok_iff.1 file
      have kinds := gains.survivesIn.keepsKinds.set_file hdir (ne_link_of_fileToWrite file)
      exact ⟨⟨rfl, (readsAt_of_fileToWrite file text).read⟩, kinds _,
        survivesIn_of_write found wrote, not_risesWithin_of_detours closed⟩
    | error c v =>
      rw [wrote] at once
      rw [after_of_error once, once]
      have gains := write_error wrote
      have direct : ¬ t.Detours path text := by
        intro detours
        obtain ⟨u, done⟩ := exists_write_of_detours detours
        cases done.symm.trans wrote
      exact ⟨⟨rfl, gains⟩, gains.survivesIn.keepsKinds, iff_of_true gains.survivesIn direct,
        not_risesWithin_of_detours closed⟩

/-- A directory with a file, and a link to the directory. -/
def pagesTree : Tree :=
  ⟨[(["pages".toList], .dir),
    (["pages".toList, "Home.js".toList], .file (.text "// mine".toList)),
    (["alias".toList], .link "pages".toList)]⟩

/-- A step up from where a link leads costs nothing. -/
theorem writeOnce_keeps_pagesTree :
    pagesTree.Closed ∧
    pagesTree.SurvivesIn
      ((writeOnce (.ofString "alias/../About.js") "// new".toList).after pagesTree) := by
  have closed : pagesTree.Closed := Tree.closed_of_entries (by decide)
  obtain ⟨-, -, spared, rises⟩ :=
    writeOnce_keeps closed (.ofString "alias/../About.js") "// new".toList
  have steps : (Path.ofString "alias/../About.js").steps =
      [.name "alias".toList, .up] ++ [.name "About.js".toList] := rfl
  have walked : pagesTree.walkWithin false Tree.maxLinks [] [.name "alias".toList, .up] = .ok [] :=
    rfl
  exact ⟨closed, spared.2 fun detours => rises detours (steps ▸ risesWithin_of_walk walked)⟩

/-- The path steps up from a directory that is not there. When it is made, the write that follows
fills a file that was there. -/
theorem writeOnce_overwrites :
    pagesTree.Closed ∧ exists? pagesTree (.ofString "gone/../pages/Home.js") = false ∧
    pagesTree.get? ["pages".toList, "Home.js".toList] = some (.file (.text "// mine".toList)) ∧
    ((writeOnce (.ofString "gone/../pages/Home.js") "// new".toList).after pagesTree).get?
      ["pages".toList, "Home.js".toList] = some (.file (.text "// new".toList)) :=
  ⟨Tree.closed_of_entries (by decide), by decide +kernel, by decide +kernel, by decide +kernel⟩

end ComponentForge.Access

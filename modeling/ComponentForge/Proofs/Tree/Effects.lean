import ComponentForge.Proofs.Tree.Site

/-!
# Effects of accesses on a site

Each access has its effect on the tree whether it succeeds or fails.
-/

namespace ComponentForge.Access

variable {t u : Tree} {path : Path} {text : Text}

/-- The tree that an access leaves, also when it fails. -/
def after {α : Type} (x : Access α) (t : Tree) : Tree :=
  match x t with
  | .ok _ u => u
  | .error _ u => u

theorem after_of_ok {α : Type} {x : Access α} {a : α} (h : x t = .ok a u) : x.after t = u := by
  rw [after, h]

theorem after_of_error {α : Type} {x : Access α} {c : Cause} (h : x t = .error c u) :
    x.after t = u := by
  rw [after, h]

theorem writeOnce_of_exists (h : exists? t path) : writeOnce path text t = .ok .skipped t := by
  rw [writeOnce, get_bind_run]
  simp [h, pure_run]

theorem writeOnce_of_missing (h : exists? t path = false) :
    writeOnce path text t = match write path text t with
      | .ok _ u => .ok .written u
      | .error c u => .error c u := by
  rw [writeOnce, get_bind_run]
  simp only [h, Bool.false_eq_true, if_false]
  cases wrote : write path text t with
  | ok a u => exact bind_of_ok wrote
  | error c u => exact bind_of_error wrote

end ComponentForge.Access

namespace ComponentForge.Tree

open Access

variable {t u : Tree} {R q : Route} {root path : Path} {steps : List Step} {text : Text}

theorem makeLast_ok (h : makeLast steps t = .ok () u) :
    ∃ r, t.place steps = .ok r ∧ t.get? r = none ∧ u = t.set r .dir := by
  rw [makeLast] at h
  cases hplace : t.place steps with
  | error c => simp [hplace] at h
  | ok r =>
    cases hr : t.get? r with
    | none =>
      rw [hplace] at h
      simp only [hr] at h
      exact ⟨r, rfl, hr, (EStateM.Result.ok.inj h).2.symm⟩
    | some node => simp [hplace, hr] at h

theorem makeLast_error {c : Cause} (h : makeLast steps t = .error c u) : u = t := by
  rw [makeLast] at h
  cases hplace : t.place steps with
  | error c =>
    rw [hplace] at h
    exact (EStateM.Result.error.inj h).2.symm
  | ok r =>
    cases hr : t.get? r with
    | none => simp [hplace, hr] at h
    | some node =>
      rw [hplace] at h
      simp only [hr] at h
      exact (EStateM.Result.error.inj h).2.symm

section Make

variable {I : Tree → Prop} {make : Access Unit}

theorem keeps_check (path : Path) : Keeps I (fun _ => True) (check path) := by
  intro t ht
  rw [check, Access.ofExcept]
  cases checkPath path with
  | ok _ => exact ht
  | error c => exact ⟨ht, trivial⟩

theorem keeps_makeLast (hmade : ∀ t u, I t → makeLast steps t = .ok () u → I u) :
    Keeps I (fun _ => True) (makeLast steps) := by
  intro t ht
  cases h : makeLast steps t with
  | ok a u => exact hmade t u ht h
  | error c u => exact ⟨makeLast_error h ▸ ht, trivial⟩

theorem keeps_orDir (steps : List Step) (c : Cause) : Keeps I (fun _ => True)
    (fun t => if t.isDir steps then .ok () t else .error c t : Access Unit) := by
  intro t ht
  by_cases h : t.isDir steps
  · simpa [h] using ht
  · simpa [h] using ht

theorem keeps_unlessDir (hmake : Keeps I (fun _ => True) make) :
    Keeps I (fun _ => True) (unlessDir steps make) := by
  intro t ht
  have made := hmake t ht
  cases h : make t with
  | ok a u =>
    rw [h] at made
    simpa [unlessDir, h] using made
  | error c u =>
    rw [h] at made
    simp only [unlessDir, h]
    exact keeps_orDir steps c u made.1

theorem keeps_makeAfter (hparent : Keeps I (fun _ => True) make)
    (hlast : Keeps I (fun _ => True) (makeLast steps)) :
    Keeps I (fun _ => True) (makeAfter make steps) := by
  intro t ht
  have made := hlast t ht
  cases h : makeLast steps t with
  | ok a u =>
    rw [h] at made
    simpa [makeAfter, h] using made
  | error c u =>
    rw [h] at made
    cases c with
    | notFound =>
      simp only [makeAfter, h]
      exact (hparent.bind fun _ => keeps_unlessDir hlast) u made.1
    | _ =>
      simp only [makeAfter, h]
      exact keeps_orDir steps _ u made.1

/-- Along directories nothing is made. -/
theorem keeps_makeMoves_passed (hI : ∀ t, I t → ∃ r, t.Passes [] steps.reverse r) :
    Keeps I (fun _ => True) (makeMoves steps) := by
  induction steps with
  | nil => exact Keeps.pure ()
  | cons step above ih =>
    refine keeps_makeAfter (ih fun t ht => ?_) (keeps_makeLast fun t u ht h => ?_)
    · obtain ⟨r, passes⟩ := hI t ht
      rw [List.reverse_cons] at passes
      obtain ⟨mid, first, -⟩ := passes.of_append
      exact ⟨mid, first⟩
    · obtain ⟨r, passes⟩ := hI t ht
      rw [List.reverse_cons] at passes
      obtain ⟨r', placed, gone, -⟩ := makeLast_ok h
      have isSome := passes.place_isSome placed
      simp [gone] at isSome

end Make

/-- One directory more on the way below the end of a base. -/
theorem Plain.makeLast_grown (plain : t.Plain) {base above : List Step} {n : Text}
    (passes : t.Passes [] base R) (hup : .up ∉ above)
    (hq : above.filterMap Step.name? ++ [n] <+: q)
    (h : makeLast (base ++ above ++ [.name n]) t = .ok () u) : Grown R q t u ∧ u.Plain := by
  obtain ⟨r, placed, gone, rfl⟩ := makeLast_ok h
  obtain ⟨d, walked, hd, -, rfl⟩ := place_concat.1 placed
  obtain rfl := plain.eq_of_walkWithin passes hup walked hd
  exact ⟨grown_set_dir hq gone, plain.set_dir hd⟩

namespace Site

theorem keeps_makeLast_below {base above : List Step} {n : Text}
    (passes : t.Passes [] base R) (hup : .up ∉ above)
    (hq : above.filterMap Step.name? ++ [n] <+: q) :
    Keeps (fun u => Grown R q t u ∧ u.Plain) (fun _ => True)
      (makeLast (base ++ above ++ [.name n])) := by
  refine keeps_makeLast fun u v hu h => ?_
  have grown := hu.2.makeLast_grown (passes.grown hu.1) hup hq h
  exact ⟨hu.1.trans grown.1, grown.2⟩

theorem keeps_makeMoves (site : t.Site root R) (names : List Text) (hq : names.reverse <+: q) :
    Keeps (fun u => Grown R q t u ∧ u.Plain) (fun _ => True)
      (makeMoves (names.map .name ++ root.moves.reverse)) := by
  have moves : t.Passes [] root.moves R := site.passes.moves
  induction names with
  | nil =>
    refine keeps_makeMoves_passed fun u hu => ⟨R, ?_⟩
    rw [List.map_nil, List.nil_append, List.reverse_reverse]
    exact moves.grown hu.1
  | cons n above ih =>
    rw [List.reverse_cons] at hq
    have names_above : ((above.reverse.map Step.name).filterMap Step.name?) = above.reverse := by
      rw [List.filterMap_map]
      exact List.filterMap_some
    refine keeps_makeAfter (ih ((List.prefix_append _ _).trans hq)) ?_
    rw [List.append_eq, List.reverse_append, List.reverse_reverse, ← List.map_reverse]
    exact keeps_makeLast_below moves (by simp) (names_above.symm ▸ hq)

/-- The moves above an entry that a path goes down to. -/
theorem moves_above (root : Path) {above : List Step} {n : Text} (descends : path.Descends q)
    (hq : above.filterMap Step.name? ++ [n] = q) : (root.join path).moves.reverse.tail =
      (above.filterMap Step.name?).reverse.map .name ++ root.moves.reverse := by
  rw [Path.moves_join root descends, ← hq]
  simp

/-- A directory with the directories above it. -/
theorem makeDirs_eq (root : Path) {above : List Step} {n : Text}
    (hsteps : path.steps = above ++ [.name n]) (descends : path.Descends q)
    (hq : above.filterMap Step.name? ++ [n] = q) : makeDirs (root.join path) = (do
      check (root.join path)
      makeAfter (makeMoves ((above.filterMap Step.name?).reverse.map .name ++ root.moves.reverse))
        (root.steps ++ above ++ [.name n])) := by
  have steps := Path.steps_join root descends.relative
  rw [hsteps, ← List.append_assoc] at steps
  rw [makeDirs, if_neg (by simp [steps]), moves_above root descends hq, steps]

/-- The directories above an entry. -/
theorem makeParents_eq (root : Path) {above : List Step} {n : Text} (descends : path.Descends q)
    (hq : above.filterMap Step.name? ++ [n] = q) : makeParents (root.join path) = (do
      check (root.join path).above
      makeMoves ((above.filterMap Step.name?).reverse.map .name ++ root.moves.reverse)) := by
  rw [makeParents, moves_above root descends hq]

/-- What a directory and the directories above it change. -/
theorem keeps_makeDirs (site : t.Site root R) (descends : path.Descends q) :
    Keeps (fun u => Grown R q t u ∧ u.Plain) (fun _ => True) (makeDirs (root.join path)) := by
  obtain ⟨above, n, hsteps, hup, rfl⟩ := descends.steps
  rw [makeDirs_eq root hsteps descends rfl]
  refine (keeps_check _).bind fun _ =>
    keeps_makeAfter (site.keeps_makeMoves _ ?_)
      (keeps_makeLast_below site.passes hup (List.prefix_refl _))
  rw [List.reverse_reverse]
  exact List.prefix_append _ _

end Site

section Lookup

theorem find_eq_ok_iff {r : Route} {node : Node} : find path t = .ok (r, node) u ↔
    u = t ∧ checkPath path = .ok () ∧ t.place path.lookupSteps = .ok r ∧ t.get? r = some node := by
  rw [find, ofExcept_eq_ok_iff]
  refine and_congr_right fun _ => ?_
  cases checkPath path with
  | error c => simp [bind, Except.bind]
  | ok _ =>
    simp only [bind, Except.bind]
    cases t.place path.lookupSteps with
    | error c => simp
    | ok r' =>
      cases hnode : t.get? r' with
      | none =>
        simp only [hnode, throw, throwThe, MonadExceptOf.throw, reduceCtorEq, false_iff]
        rintro ⟨-, same, hr⟩
        obtain rfl := Except.ok.inj same
        simp [hnode] at hr
      | some found =>
        simp only [hnode, pure, Except.pure, Prod.mk.injEq, Except.ok.injEq, true_and]
        refine and_congr_right fun same => ?_
        rw [← same, hnode, Option.some.injEq]

theorem exists?_iff : Access.exists? t path ↔ ∃ r node, find path t = .ok (r, node) t := by
  rw [Access.exists?]
  cases h : find path t with
  | ok found u =>
    obtain ⟨r, node⟩ := found
    obtain ⟨rfl, -⟩ := find_eq_ok_iff.1 h
    exact iff_of_true rfl ⟨r, node, rfl⟩
  | error c u => simp

end Lookup

namespace Site

theorem bare_join (descends : path.Descends q) : (root.join path).endsInSlash = false := by
  rw [Path.endsInSlash_join root descends.relative descends.text_ne_nil, descends.bare]

theorem lookupSteps_join (descends : path.Descends q) :
    (root.join path).lookupSteps = (root.join path).steps :=
  lookupSteps_eq (bare_join descends)

theorem find_eq (site : t.Site root R) (descends : path.Descends q) {r : Route} {node : Node}
    (h : find (root.join path) t = .ok (r, node) u) :
    u = t ∧ r = R ++ q ∧ t.get? (R ++ q) = some node := by
  obtain ⟨rfl, -, placed, hnode⟩ := find_eq_ok_iff.1 h
  rw [lookupSteps_join descends] at placed
  obtain ⟨rfl, -⟩ := site.place_eq descends placed
  exact ⟨rfl, rfl, hnode⟩

theorem find_of_fits (site : t.Site root R) (descends : path.Descends q)
    (fits : (root.join path).Fits) {node : Node} (h : t.get? (R ++ q) = some node) :
    find (root.join path) t = .ok (R ++ q, node) t := by
  have above := site.above_of_isSome descends (by simp [h])
  rw [find_eq_ok_iff, lookupSteps_join descends]
  exact ⟨rfl, fits.checked, site.place_of_fits descends fits above, h⟩

theorem isSome_of_exists? (site : t.Site root R) (descends : path.Descends q)
    (h : Access.exists? t (root.join path)) : (t.get? (R ++ q)).isSome := by
  obtain ⟨r, node, found⟩ := exists?_iff.1 h
  simp [(site.find_eq descends found).2.2]

theorem exists?_of_fits (site : t.Site root R) (descends : path.Descends q)
    (fits : (root.join path).Fits) (h : (t.get? (R ++ q)).isSome) :
    Access.exists? t (root.join path) := by
  obtain ⟨node, hnode⟩ := Option.isSome_iff_exists.1 h
  exact exists?_iff.2 ⟨_, node, site.find_of_fits descends fits hnode⟩

/-- A path that fits and is not found has nothing at its route. -/
theorem free_of_missing (site : t.Site root R) (descends : path.Descends q)
    (fits : (root.join path).Fits) (h : Access.exists? t (root.join path) = false) :
    t.get? (R ++ q) = none := by
  rw [← Option.not_isSome_iff_eq_none]
  intro occupied
  rw [site.exists?_of_fits descends fits occupied] at h
  cases h

/-- What is found has a path that fits. -/
theorem fits_of_exists? (site : t.Site root R) (descends : path.Descends q)
    (h : Access.exists? t (root.join path)) : (root.join path).Fits := by
  obtain ⟨r, node, found⟩ := exists?_iff.1 h
  obtain ⟨-, checked, placed, -⟩ := find_eq_ok_iff.1 found
  rw [lookupSteps_join descends] at placed
  obtain ⟨above, n, hsteps, -, -⟩ := descends.steps
  have steps : (root.join path).steps = root.steps ++ above ++ [.name n] := by
    rw [Path.steps_join root descends.relative, hsteps, List.append_assoc]
  rw [steps, place_concat] at placed
  obtain ⟨d, walked, hd, fits, -⟩ := placed
  obtain ⟨follow, from_root⟩ := walkWithin_eq_walkFrom t false maxLinks
  rw [walk, site.passes.walkWithin, from_root] at walked
  have passes := site.plain.passes_of_walkFrom walked hd
  refine ⟨checked, fun m hm => ?_⟩
  rw [steps, List.mem_append, List.mem_append, List.mem_singleton] at hm
  rcases hm with (hm | hm) | hm
  · exact site.passes.fits m hm
  · exact passes.fits m hm
  · exact Step.name.inj hm ▸ fits

theorem exists?_congr {u : Tree} (site : t.Site root R) (site' : u.Site root R)
    (descends : path.Descends q) (same : (u.get? (R ++ q)).isSome = (t.get? (R ++ q)).isSome) :
    Access.exists? u (root.join path) = Access.exists? t (root.join path) := by
  rw [Bool.eq_iff_iff]
  constructor
  · intro h
    have isSome := site'.isSome_of_exists? descends h
    exact site.exists?_of_fits descends (site'.fits_of_exists? descends h) (same ▸ isSome)
  · intro h
    have isSome := site.isSome_of_exists? descends h
    exact site'.exists?_of_fits descends (site.fits_of_exists? descends h) (same ▸ isSome)

/-- The walk to an entry, which need not exist if it may be created. -/
theorem of_walkWithin (site : t.Site root R) (descends : path.Descends q) {mayCreate : Bool}
    {r : Route} (h : t.walkWithin mayCreate maxLinks [] (root.join path).steps = .ok r) :
    r = R ++ q ∧ t.get? (R ++ q.dropLast) = some .dir ∧
      ∀ n, .name n ∈ (root.join path).steps → ¬ maxNameSize < n.byteSize := by
  obtain ⟨above, n, hsteps, hup, rfl⟩ := descends.steps
  rw [Path.steps_join root descends.relative, hsteps] at h ⊢
  rw [site.passes.walkWithin] at h
  obtain ⟨follow, walked⟩ := walkWithin_eq_walkFrom t mayCreate maxLinks
  rw [walked] at h
  obtain ⟨mid, passes, fits, rfl⟩ := site.plain.passes_of_walkFrom_concat h
  obtain rfl := passes.eq_names hup
  have standing := passes.standing (site.passes.standing standing_nil)
  refine ⟨by simp, by simpa using standing.get?, fun m hm => ?_⟩
  rw [List.mem_append, List.mem_append, List.mem_singleton] at hm
  rcases hm with hm | hm | hm
  · exact site.passes.fits m hm
  · exact passes.fits m hm
  · exact Step.name.inj hm ▸ fits

theorem readsAt_route (site : t.Site root R) (descends : path.Descends q) {r : Route}
    (h : ReadsAt t (root.join path) r text) : r = R ++ q :=
  (site.of_walkWithin descends h.walks).1

theorem readsAt_iff (site : t.Site root R) (descends : path.Descends q)
    (fits : (root.join path).Fits) :
    ReadsAt t (root.join path) (R ++ q) text ↔ t.get? (R ++ q) = some (.file (.text text)) := by
  refine ⟨fun h => h.holds, fun h => ⟨fits.checked, ?_, h, bare_join descends⟩⟩
  have hd := site.above_of_isSome descends (by simp [h])
  obtain ⟨above, n, hsteps, hq, passes⟩ := site.passes_above descends fits hd
  have names := fits.names
  rw [walk]
  rw [hsteps] at names ⊢
  have short := names n (by simp)
  obtain ⟨follow, walked⟩ := walkWithin_eq_walkFrom t false maxLinks
  rw [passes.walkWithin, walked]
  generalize q.dropLast = front at hq
  subst hq
  rw [← List.append_assoc] at h ⊢
  simp only [walkFrom, if_neg short, h, List.isEmpty_nil, if_true]

theorem of_read (site : t.Site root R) (descends : path.Descends q)
    (h : read (root.join path) t = .ok text u) :
    u = t ∧ ReadsAt t (root.join path) (R ++ q) text ∧ (root.join path).Fits := by
  obtain ⟨rfl, r, reads⟩ := readsAt_of_read h
  obtain ⟨rfl, -, names⟩ := site.of_walkWithin descends reads.walks
  exact ⟨rfl, reads, reads.checked, names⟩

theorem of_fileToWrite (site : t.Site root R) (descends : path.Descends q) {r : Route}
    (h : fileToWrite (root.join path) t = .ok r u) :
    u = t ∧ r = R ++ q ∧ t.get? (R ++ q.dropLast) = some .dir ∧ t.get? (R ++ q) ≠ some .dir ∧
      (root.join path).Fits := by
  obtain ⟨rfl, checked, -, created, hdir⟩ := fileToWrite_eq_ok_iff.1 h
  obtain ⟨rfl, above, names⟩ := site.of_walkWithin descends created
  exact ⟨rfl, rfl, above, hdir, checked, names⟩

/-- The directories that a write makes first. -/
theorem keeps_makeParents (site : t.Site root R) (descends : path.Descends q) :
    Keeps (fun u => Grown R q.dropLast t u ∧ u.Plain) (fun _ => True)
      (makeParents (root.join path)) := by
  obtain ⟨above, n, -, -, rfl⟩ := descends.steps
  rw [makeParents_eq root descends rfl]
  refine (keeps_check _).bind fun _ => site.keeps_makeMoves _ ?_
  simp only [List.reverse_reverse, List.dropLast_concat, List.prefix_refl]

/-- A file in a directory that has grown. -/
theorem set_file (site : u.Site root R) (text : Text) {front : Route} {n : Text}
    (grown : Grown R front t u)
    (hd : u.get? (R ++ front) = some .dir) (free : u.get? (R ++ (front ++ [n])) ≠ some .dir) :
    Filled R (front ++ [n]) text t (u.set (R ++ (front ++ [n])) (.file (.text text))) ∧
      (u.set (R ++ (front ++ [n])) (.file (.text text))).Site root R := by
  have hne : R ++ front ++ [n] ≠ [] := by simp
  rw [← List.append_assoc] at free ⊢
  have stays : ∀ s, u.get? s = some .dir →
      (u.set (R ++ front ++ [n]) (.file (.text text))).get? s = some .dir := by
    intro s hs
    rw [get?_set u hne, if_neg, hs]
    rintro rfl
    exact free hs
  refine ⟨⟨?_, fun s hs => ?_⟩, site.mono (site.plain.set_file hd free) stays⟩
  · rw [← List.append_assoc, get?_set u hne, if_pos rfl]
  · rw [← List.append_assoc] at hs
    rw [get?_set u hne, if_neg hs, List.dropLast_concat]
    exact grown s

theorem write_ok (site : t.Site root R) (descends : path.Descends q)
    (h : write (root.join path) text t = .ok () u) :
    Filled R q text t u ∧ u.Site root R ∧ (root.join path).Fits := by
  obtain ⟨v, r, made, found, rfl⟩ := write_eq_ok_iff.1 h
  obtain ⟨grown, plain⟩ := (site.keeps_makeParents descends).of_ok ⟨.refl _ _ t, site.plain⟩ made
  have site_made := site.of_grown plain grown
  obtain ⟨-, rfl, hd, free, fits⟩ := site_made.of_fileToWrite descends found
  obtain ⟨above, n, -, -, hq⟩ := descends.steps
  rw [← hq, List.dropLast_concat] at grown hd
  rw [← hq] at free ⊢
  obtain ⟨filled, site_filled⟩ := site_made.set_file text grown hd free
  exact ⟨filled, site_filled, fits⟩

theorem write_error (site : t.Site root R) (descends : path.Descends q) {c : Cause}
    (h : write (root.join path) text t = .error c u) :
    Grown R q.dropLast t u ∧ u.Site root R := by
  have kept := site.keeps_makeParents descends
  have start : Grown R q.dropLast t t ∧ t.Plain := ⟨.refl _ _ t, site.plain⟩
  obtain ⟨grown, plain⟩ : Grown R q.dropLast t u ∧ u.Plain := by
    rcases write_eq_error_iff.1 h with failed | ⟨made, -⟩
    · exact (kept.of_error start failed).1
    · exact kept.of_ok start made
  exact ⟨grown, site.of_grown plain grown⟩

end Site

/-- A path below the root that leads somewhere shows that the root does. -/
theorem Plain.exists_site (plain : t.Plain) (descends : path.Descends q)
    (h : Access.exists? t (root.join path)) : ∃ R, t.Site root R := by
  obtain ⟨r, node, found⟩ := exists?_iff.1 h
  obtain ⟨-, -, placed, -⟩ := find_eq_ok_iff.1 found
  obtain ⟨above, n, hsteps, -, -⟩ := descends.steps
  rw [Site.lookupSteps_join descends, Path.steps_join root descends.relative, hsteps,
    ← List.append_assoc, place_concat] at placed
  obtain ⟨d, walked, hd, -, -⟩ := placed
  obtain ⟨follow, from_root⟩ := walkWithin_eq_walkFrom t false maxLinks
  rw [walk, from_root] at walked
  obtain ⟨R, passes, -⟩ := (plain.passes_of_walkFrom walked hd).of_append
  exact ⟨R, plain, passes⟩

end ComponentForge.Tree

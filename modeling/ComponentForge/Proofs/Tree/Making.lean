import ComponentForge.Proofs.Tree.Effects

/-!
# Directories along a way

Making the directories along a way either opens the way or leaves it closed for good: by a name that
is too long, which is met again, or by something that was there before and stays as it is. Whatever
comes of it, the same attempt in the tree that it left comes to the same and changes nothing.
-/

namespace ComponentForge.Tree

open Access

/-- On the way down along the steps something other than a directory comes first. -/
inductive Stops (t : Tree) : Route → List Step → Cause → Prop
  | stay {here : Route} {rest : List Step} {c : Cause} : Stops t here rest c →
    Stops t here (.stay :: rest) c
  | name {here : Route} {n : Text} {rest : List Step} {c : Cause} : ¬ maxNameSize < n.byteSize →
    t.get? (here ++ [n]) = some .dir → Stops t (here ++ [n]) rest c →
    Stops t here (.name n :: rest) c
  | long {here : Route} {n : Text} {rest : List Step} : maxNameSize < n.byteSize →
    Stops t here (.name n :: rest) .invalidFilename
  | gone {here : Route} {n : Text} {rest : List Step} : ¬ maxNameSize < n.byteSize →
    t.get? (here ++ [n]) = none → Stops t here (.name n :: rest) .notFound
  | file {here : Route} {n : Text} {rest : List Step} {content : Content} :
    ¬ maxNameSize < n.byteSize → t.get? (here ++ [n]) = some (.file content) →
    Stops t here (.name n :: rest) .notADirectory

variable {t u : Tree} {here mid r R q : Route} {base above way steps more : List Step} {c : Cause}
  {n : Text}

theorem Plain.passes_or_stops (plain : t.Plain) (here : Route) (hup : .up ∉ steps) :
    t.Passes here steps (here ++ steps.filterMap Step.name?) ∨ ∃ c, t.Stops here steps c := by
  induction steps generalizing here with
  | nil => exact Or.inl (by simpa using Passes.nil here)
  | cons step rest ih =>
    rw [List.mem_cons, not_or] at hup
    cases step with
    | stay =>
      rcases ih _ hup.2 with passes | ⟨c, stops⟩
      · exact Or.inl (.stay passes)
      · exact Or.inr ⟨c, .stay stops⟩
    | up => exact absurd rfl hup.1
    | name n =>
      by_cases fits : maxNameSize < n.byteSize
      · exact Or.inr ⟨_, .long fits⟩
      · cases hn : t.get? (here ++ [n]) with
        | none => exact Or.inr ⟨_, .gone fits hn⟩
        | some node =>
          cases node with
          | link target => exact absurd hn (plain.no_link _ target)
          | file content => exact Or.inr ⟨_, .file fits hn⟩
          | dir =>
            rcases ih _ hup.2 with passes | ⟨c, stops⟩
            · have down := Passes.name fits hn passes
              exact Or.inl (by simpa [Step.name?] using down)
            · exact Or.inr ⟨c, .name fits hn stops⟩

namespace Stops

theorem cause (h : t.Stops here steps c) :
    c = .invalidFilename ∨ c = .notFound ∨ c = .notADirectory := by
  induction h with
  | stay _ ih => exact ih
  | name _ _ _ ih => exact ih
  | long _ => exact Or.inl rfl
  | gone _ _ => exact Or.inr (Or.inl rfl)
  | file _ _ => exact Or.inr (Or.inr rfl)

theorem not_passes (h : t.Stops here steps c) : ¬ t.Passes here steps r := by
  induction h with
  | stay _ ih =>
    rintro (_ | passes)
    exact ih passes
  | name _ _ _ ih =>
    rintro (_ | _ | _ | ⟨-, -, passes⟩)
    exact ih passes
  | long long =>
    rintro (_ | _ | _ | ⟨fits, -, -⟩)
    exact fits long
  | gone _ gone =>
    rintro (_ | _ | _ | ⟨-, isDir, -⟩)
    simp [gone] at isDir
  | file _ file =>
    rintro (_ | _ | _ | ⟨-, isDir, -⟩)
    simp [file] at isDir

theorem unique {c' : Cause} (h : t.Stops here steps c) (h' : t.Stops here steps c') : c = c' := by
  induction h with
  | stay _ ih =>
    cases h' with
    | stay h' => exact ih h'
  | name fits isDir _ ih =>
    cases h' with
    | name _ _ h' => exact ih h'
    | long long => exact absurd long fits
    | gone _ gone => simp [gone] at isDir
    | file _ file => simp [file] at isDir
  | long long =>
    cases h' with
    | name fits _ _ => exact absurd long fits
    | long _ => rfl
    | gone fits _ => exact absurd long fits
    | file fits _ => exact absurd long fits
  | gone fits gone =>
    cases h' with
    | name _ isDir _ => simp [gone] at isDir
    | long long => exact absurd long fits
    | gone _ _ => rfl
    | file _ file => simp [gone] at file
  | file fits file =>
    cases h' with
    | name _ isDir _ => simp [file] at isDir
    | long long => exact absurd long fits
    | gone _ gone => simp [file] at gone
    | file _ _ => rfl

theorem append (h : t.Stops here steps c) (more : List Step) : t.Stops here (steps ++ more) c := by
  induction h with
  | stay _ ih => exact .stay ih
  | name fits isDir _ ih => exact .name fits isDir ih
  | long long => exact .long long
  | gone fits gone => exact .gone fits gone
  | file fits file => exact .file fits file

theorem of_append (h : t.Stops here (steps ++ more) c) :
    t.Stops here steps c ∨ ∃ mid, t.Passes here steps mid ∧ t.Stops mid more c := by
  induction steps generalizing here with
  | nil => exact Or.inr ⟨here, .nil here, h⟩
  | cons step rest ih =>
    cases h with
    | stay h =>
      rcases ih h with stops | ⟨mid, passes, stops⟩
      · exact Or.inl (.stay stops)
      · exact Or.inr ⟨mid, .stay passes, stops⟩
    | name fits isDir h =>
      rcases ih h with stops | ⟨mid, passes, stops⟩
      · exact Or.inl (.name fits isDir stops)
      · exact Or.inr ⟨mid, .name fits isDir passes, stops⟩
    | long long => exact Or.inl (.long long)
    | gone fits gone => exact Or.inl (.gone fits gone)
    | file fits file => exact Or.inl (.file fits file)

/-- A way is closed by what comes after its open part. -/
theorem of_passes (hup : .up ∉ steps) (passes : t.Passes here steps mid) (h : t.Stops mid more c) :
    t.Stops here (steps ++ more) c := by
  induction passes with
  | nil here => exact h
  | stay _ ih => exact .stay (ih (by simpa using hup) h)
  | up _ _ => simp at hup
  | name fits isDir _ ih => exact .name fits isDir (ih (by simpa using hup) h)

theorem moves (h : t.Stops here steps c) : t.Stops here (steps.filter (· != .stay)) c := by
  induction h with
  | stay _ ih => exact ih
  | name fits isDir _ ih => exact .name fits isDir ih
  | long long => exact .long long
  | gone fits gone => exact .gone fits gone
  | file fits file => exact .file fits file

/-- A name that is too long closes the way. -/
theorem exists_long (h : t.Stops here steps .invalidFilename) :
    ∃ n, .name n ∈ steps ∧ maxNameSize < n.byteSize := by
  generalize hc : Cause.invalidFilename = c at h
  induction h with
  | stay _ ih =>
    obtain ⟨n, hn, long⟩ := ih hc
    exact ⟨n, List.mem_cons_of_mem _ hn, long⟩
  | name _ _ _ ih =>
    obtain ⟨n, hn, long⟩ := ih hc
    exact ⟨n, List.mem_cons_of_mem _ hn, long⟩
  | long long => exact ⟨_, List.mem_cons_self, long⟩
  | gone _ _ => cases hc
  | file _ _ => cases hc

theorem walkFrom (h : t.Stops here steps c) (follow : Route → Text → List Step → Except Cause Route) :
    t.walkFrom false follow here steps = .error c ∨ c = .notADirectory ∧
      ∃ r content, t.walkFrom false follow here steps = .ok r ∧
        t.get? r = some (.file content) := by
  induction h with
  | stay _ ih => exact ih
  | name fits isDir _ ih => simpa only [Tree.walkFrom, if_neg fits, isDir] using ih
  | long long => exact Or.inl (by simp only [Tree.walkFrom, if_pos long])
  | gone fits gone => exact Or.inl (by simp [Tree.walkFrom, fits, gone])
  | @file here n rest content fits file =>
    cases rest with
    | nil => exact Or.inr ⟨rfl, here ++ [n], content, by simp [Tree.walkFrom, fits, file], file⟩
    | cons step rest => exact Or.inl (by simp [Tree.walkFrom, fits, file])

/-- Nothing has a place behind a closed way. -/
theorem place (passes : t.Passes [] base R) (h : t.Stops R above c) :
    t.place (base ++ above ++ [.name n]) = .error c := by
  obtain ⟨follow, walked⟩ := walkWithin_eq_walkFrom t false maxLinks
  simp only [Tree.place, walk, List.getLast?_concat, List.dropLast_concat, passes.walkWithin, walked]
  rcases h.walkFrom follow with stopped | ⟨rfl, r, content, reached, file⟩
  · simp [stopped, bind, Except.bind]
  · simp [reached, file, bind, Except.bind]

end Stops

/-- A directory stands at the end of the steps if the way along them is open. -/
theorem Plain.isDir_iff_passes (plain : t.Plain) (passes : t.Passes [] base R) :
    t.isDir (base ++ way) ↔ ∃ r, t.Passes R way r := by
  obtain ⟨follow, walked⟩ := walkWithin_eq_walkFrom t false maxLinks
  constructor
  · intro h
    rw [isDir] at h
    split at h
    · rename_i r reached
      rw [walk, passes.walkWithin, walked] at reached
      exact ⟨r, plain.passes_of_walkFrom reached (by simpa using h)⟩
    · simp at h
  · rintro ⟨r, down⟩
    have whole := passes.append down
    have reached : t.walk (base ++ way) = .ok r := whole.walkWithin_eq false maxLinks
    simp [isDir, reached, (whole.standing standing_nil).get?]

theorem makeAfter_of_isDir {make : Access Unit} (h : t.isDir steps) :
    makeAfter make steps t = .ok () t := by
  have here := h
  rw [isDir] at here
  split at here
  · rename_i r reached
    have isDir : t.get? r = some .dir := by simpa using here
    obtain ⟨q, placed, occupied⟩ := place_of_walk reached (by simp [isDir])
    obtain ⟨node, hnode⟩ := Option.isSome_iff_exists.1 occupied
    have already : makeLast steps t = .error .alreadyExists t := by simp [makeLast, placed, hnode]
    simp [makeAfter, already, h]
  · simp at here

theorem makeAfter_of_error {make : Access Unit} (h : t.place steps = .error c) (hc : c ≠ .notFound)
    (closed : ¬ t.isDir steps) : makeAfter make steps t = .error c t := by
  have failed : makeLast steps t = .error c t := by simp [makeLast, h]
  rw [makeAfter, failed]
  cases c with
  | notFound => exact absurd rfl hc
  | _ => simp [closed]

/-- How an attempt to make the directories along a way ends: the way is open, or a name on it is too
long, or nothing was done because of what stands there. -/
def MadeAlong (R : Route) (way : List Step) (t : Tree) : EStateM.Result Cause Tree Unit → Prop
  | .ok _ u => ∃ r, u.Passes R way r
  | .error c u => c = .invalidFilename ∧ u.Stops R way .invalidFilename ∨
    u = t ∧ t.Stops R way .notADirectory

section Again

variable {make : Access Unit}

theorem Plain.not_isDir_of_stops (plain : t.Plain) (passes : t.Passes [] base R)
    (h : t.Stops R way c) : ¬ t.isDir (base ++ way) := by
  rw [plain.isDir_iff_passes passes]
  rintro ⟨r, down⟩
  exact h.not_passes down

theorem makeAfter_of_long (plain : t.Plain) (passes : t.Passes [] base R)
    (h : t.Stops R (above ++ [.name n]) .invalidFilename) :
    makeAfter make (base ++ above ++ [.name n]) t = .error .invalidFilename t := by
  refine makeAfter_of_error ?_ (by simp) ?_
  · rcases h.of_append with stops | ⟨mid, open_above, stops⟩
    · exact stops.place passes
    · have walked : t.walk (base ++ above) = .ok mid :=
        (passes.append open_above).walkWithin_eq false maxLinks
      have standing := (passes.append open_above).standing standing_nil
      cases stops with
      | name _ _ stops => cases stops
      | long long =>
        simp only [place, List.getLast?_concat, List.dropLast_concat, walked]
        simp [standing.get?, long, bind, Except.bind]
  · rw [List.append_assoc]
    exact plain.not_isDir_of_stops passes h

/-- The attempt comes to the same in the tree that it left. -/
theorem MadeAlong.again_ok (plain : u.Plain) (passes : u.Passes [] base R)
    (h : MadeAlong R way t (.ok () u)) : makeAfter make (base ++ way) u = .ok () u :=
  makeAfter_of_isDir ((plain.isDir_iff_passes passes).2 h)

theorem MadeAlong.again_error (plain : u.Plain) (passes : u.Passes [] base R)
    (h : MadeAlong R (above ++ [.name n]) t (.error c u))
    (failed : makeAfter make (base ++ above ++ [.name n]) t = .error c u) :
    makeAfter make (base ++ above ++ [.name n]) u = .error c u := by
  rcases h with ⟨rfl, stops⟩ | ⟨rfl, -⟩
  · exact makeAfter_of_long plain passes stops
  · exact failed

/-- The place of what comes after an open way. -/
theorem Passes.place_name (open_above : t.Passes [] way mid) : t.place (way ++ [.name n]) =
    if maxNameSize < n.byteSize then .error .invalidFilename else .ok (mid ++ [n]) := by
  have walked : t.walk way = .ok mid := open_above.walkWithin_eq false maxLinks
  simp only [place, List.getLast?_concat, List.dropLast_concat, walked]
  simp [(open_above.standing standing_nil).get?, bind, Except.bind]

theorem makeAfter_eq_unlessDir (h : t.place steps ≠ .error .notFound) :
    makeAfter make steps t = unlessDir steps (makeLast steps) t := by
  cases made : makeLast steps t with
  | ok a u => simp only [makeAfter, unlessDir, made]
  | error c u =>
    have other : c ≠ .notFound := by
      rintro rfl
      apply h
      rw [makeLast] at made
      cases placed : t.place steps with
      | error c =>
        rw [placed] at made
        rw [(EStateM.Result.error.inj made).1]
      | ok r => cases hr : t.get? r <;> simp [placed, hr] at made
    cases c with
    | notFound => exact absurd rfl other
    | _ => simp only [makeAfter, unlessDir, made]

/-- The last directory, when the way to it is open. -/
theorem Plain.last_along (plain : t.Plain) (passes : t.Passes [] base R) (hup : .up ∉ above)
    (hmid : t.Passes R above mid) : MadeAlong R (above ++ [.name n]) t
      (unlessDir (base ++ above ++ [.name n]) (makeLast (base ++ above ++ [.name n])) t) := by
  have placed := (passes.append hmid).place_name (n := n)
  have regroup := List.append_assoc base above [.name n]
  by_cases long : maxNameSize < n.byteSize
  · have stops : t.Stops R (above ++ [.name n]) .invalidFilename := .of_passes hup hmid (.long long)
    have closed := plain.not_isDir_of_stops passes stops
    rw [if_pos long] at placed
    have failed : makeLast (base ++ above ++ [.name n]) t = .error .invalidFilename t := by
      rw [makeLast, placed]
    rw [← regroup] at closed
    simp only [unlessDir, failed, closed]
    exact Or.inl ⟨rfl, stops⟩
  · rw [if_neg long] at placed
    cases hn : t.get? (mid ++ [n]) with
    | none =>
      have made : makeLast (base ++ above ++ [.name n]) t = .ok () (t.set (mid ++ [n]) .dir) := by
        simp only [makeLast, placed, hn]
      have isDir : (t.set (mid ++ [n]) .dir).get? (mid ++ [n]) = some .dir := by
        rw [get?_set t (by simp), if_pos rfl]
      have down := hmid.mono (u := t.set (mid ++ [n]) .dir) fun s hs => by
        rw [get?_set t (by simp), hs]
        simp
      simp only [unlessDir, made]
      exact ⟨_, down.append (.name long isDir (.nil _))⟩
    | some node =>
      have failed : makeLast (base ++ above ++ [.name n]) t = .error .alreadyExists t := by
        simp only [makeLast, placed, hn]
      cases node with
      | link target => exact absurd hn (plain.no_link _ target)
      | dir =>
        have down := hmid.append (.name long hn (.nil _))
        have isDir := (plain.isDir_iff_passes passes).2 ⟨_, down⟩
        rw [← regroup] at isDir
        simp only [unlessDir, failed, isDir]
        exact ⟨_, down⟩
      | file content =>
        have stops : t.Stops R (above ++ [.name n]) .notADirectory :=
          .of_passes hup hmid (.file long hn)
        have closed := plain.not_isDir_of_stops passes stops
        rw [← regroup] at closed
        simp only [unlessDir, failed, closed]
        exact Or.inr ⟨rfl, stops⟩

/-- Behind new directories there is no file. -/
theorem Plain.no_new_file (plain : t.Plain) (hup : .up ∉ above) (closed : t.Stops R above c)
    (grown : Grown R q t u) (hmid : u.Passes R above mid) :
    ¬ u.Stops R (above ++ [.name n]) .notADirectory := by
  intro stops
  rcases stops.of_append with stops | ⟨mid', hmid', stops⟩
  · exact stops.not_passes hmid
  · cases stops with
    | name _ _ stops => cases stops
    | file fits file =>
      obtain rfl := hmid'.eq_names hup
      have old : (t.get? (R ++ above.filterMap Step.name? ++ [n])).isSome := by
        rcases grown (R ++ above.filterMap Step.name? ++ [n]) with same | ⟨-, -, dir⟩
        · rw [← same, file]
          rfl
        · rw [file] at dir
          cases dir
      exact closed.not_passes (plain.passes_down hup hmid'.fits (plain.closed _ _ old))

/-- A directory after those above it, which are made where they are missing. -/
theorem Plain.makeAfter_along (plain : t.Plain) (passes : t.Passes [] base R) (hup : .up ∉ above)
    (made : ∀ u, make t = .ok () u → Grown R q t u ∧ u.Plain ∧ ∃ mid, u.Passes R above mid)
    (failed : ∀ c u, make t = .error c u → c = .invalidFilename ∧ u.Stops R above .invalidFilename ∨
      u = t ∧ t.Stops R above .notADirectory) :
    MadeAlong R (above ++ [.name n]) t (makeAfter make (base ++ above ++ [.name n]) t) := by
  have regroup := List.append_assoc base above [.name n]
  rcases plain.passes_or_stops R hup with hmid | ⟨c, stops⟩
  · have placed := (passes.append hmid).place_name (n := n)
    have found : t.place (base ++ above ++ [.name n]) ≠ .error .notFound := by
      rw [placed]
      split <;> simp
    rw [makeAfter_eq_unlessDir found]
    exact plain.last_along passes hup hmid
  · have unplaced := stops.place (n := n) passes
    have closed := plain.not_isDir_of_stops passes (stops.append [.name n])
    rw [← regroup] at closed
    rcases stops.cause with rfl | rfl | rfl
    · rw [makeAfter_of_error unplaced (by simp) closed]
      exact Or.inl ⟨rfl, stops.append _⟩
    · have missing : makeLast (base ++ above ++ [.name n]) t = .error .notFound t := by
        rw [makeLast, unplaced]
      simp only [makeAfter, missing]
      cases h : make t with
      | error c u =>
        rw [bind_of_error h]
        rcases failed c u h with ⟨rfl, long⟩ | ⟨rfl, file⟩
        · exact Or.inl ⟨rfl, long.append _⟩
        · cases stops.unique file
      | ok a u =>
        rw [bind_of_ok h]
        obtain ⟨grown, plain', mid, hmid⟩ := made u h
        have last := plain'.last_along (n := n) (passes.grown grown) hup hmid
        cases ended : unlessDir (base ++ above ++ [.name n])
            (makeLast (base ++ above ++ [.name n])) u with
        | ok a v =>
          rw [ended] at last
          exact last
        | error c v =>
          rw [ended] at last
          rcases last with long | ⟨rfl, file⟩
          · exact Or.inl long
          · exact absurd file (plain.no_new_file hup stops grown hmid)
    · rw [makeAfter_of_error unplaced (by simp) closed]
      exact Or.inr ⟨rfl, stops.append _⟩

end Again

namespace Site

variable {root path : Path} {text : Text}

/-- The moves of the root make nothing. -/
theorem makeMoves_root (site : t.Site root R) : makeMoves root.moves.reverse t = .ok () t := by
  have moves : t.Passes [] root.moves R := site.passes.moves
  refine makeMoves_of_standing (r := R) ?_ (moves.standing standing_nil)
  rw [List.reverse_reverse]
  exact moves.walkWithin_eq false maxLinks

theorem makeMoves_cons (root : Path) (n : Text) (names : List Text) :
    makeMoves ((n :: names).map .name ++ root.moves.reverse) =
      makeAfter (makeMoves (names.map .name ++ root.moves.reverse))
        (root.moves ++ names.reverse.map .name ++ [.name n]) := by
  have regroup : (names.map Step.name ++ root.moves.reverse).reverse ++ [.name n] =
      root.moves ++ names.reverse.map .name ++ [.name n] := by simp
  rw [List.map_cons, List.cons_append, makeMoves, regroup]

/-- The directories along names below the root. -/
theorem makeMoves_along (site : t.Site root R) (names : List Text) :
    MadeAlong R (names.reverse.map .name) t
      (makeMoves (names.map .name ++ root.moves.reverse) t) := by
  induction names with
  | nil =>
    rw [List.map_nil, List.nil_append, site.makeMoves_root]
    exact ⟨R, .nil R⟩
  | cons n above ih =>
    have kept := site.keeps_makeMoves above (List.prefix_refl _)
    rw [List.reverse_cons, List.map_append, List.map_cons, List.map_nil, makeMoves_cons]
    refine site.plain.makeAfter_along (q := above.reverse) site.passes.moves (by simp)
      (fun u made => ?_) fun c u failed => ?_
    · rw [made] at ih
      obtain ⟨grown, plain⟩ := kept.of_ok ⟨.refl _ _ t, site.plain⟩ made
      exact ⟨grown, plain, ih⟩
    · rw [failed] at ih
      exact ih

theorem makeMoves_again_ok (site : t.Site root R) (names : List Text)
    (h : makeMoves (names.map .name ++ root.moves.reverse) t = .ok () u) :
    makeMoves (names.map .name ++ root.moves.reverse) u = .ok () u := by
  have along := site.makeMoves_along names
  obtain ⟨grown, plain⟩ :=
    (site.keeps_makeMoves names (List.prefix_refl _)).of_ok ⟨.refl _ _ t, site.plain⟩ h
  rw [h] at along
  cases names with
  | nil => exact (site.of_grown plain grown).makeMoves_root
  | cons n names =>
    rw [List.reverse_cons, List.map_append, List.map_cons, List.map_nil] at along
    rw [makeMoves_cons, List.append_assoc]
    exact along.again_ok plain (site.passes.moves.grown grown)

theorem makeMoves_again_error (site : t.Site root R) (names : List Text)
    (h : makeMoves (names.map .name ++ root.moves.reverse) t = .error c u) :
    makeMoves (names.map .name ++ root.moves.reverse) u = .error c u := by
  have along := site.makeMoves_along names
  obtain ⟨⟨grown, plain⟩, -⟩ :=
    (site.keeps_makeMoves names (List.prefix_refl _)).of_error ⟨.refl _ _ t, site.plain⟩ h
  rw [h] at along
  cases names with
  | nil =>
    rw [List.map_nil, List.nil_append, site.makeMoves_root] at h
    cases h
  | cons n names =>
    rw [List.reverse_cons, List.map_append, List.map_cons, List.map_nil] at along
    rw [makeMoves_cons] at h ⊢
    exact along.again_error plain (site.passes.moves.grown grown) h

theorem makeDirs_along (site : t.Site root R) {above : List Step} {n : Text} (hup : .up ∉ above) :
    MadeAlong R (above ++ [.name n]) t (makeAfter
      (makeMoves ((above.filterMap Step.name?).reverse.map .name ++ root.moves.reverse))
      (root.steps ++ above ++ [.name n]) t) := by
  have kept := site.keeps_makeMoves (above.filterMap Step.name?).reverse (List.prefix_refl _)
  have along := site.makeMoves_along (above.filterMap Step.name?).reverse
  rw [List.reverse_reverse, ← Path.filter_ne_stay hup] at along
  rw [List.reverse_reverse] at kept
  refine site.plain.makeAfter_along (q := above.filterMap Step.name?) site.passes hup
    (fun u made => ?_) fun c u failed => ?_
  · rw [made] at along
    obtain ⟨grown, plain⟩ := kept.of_ok ⟨.refl _ _ t, site.plain⟩ made
    refine ⟨grown, plain, ?_⟩
    rcases plain.passes_or_stops R hup with passes | ⟨c, stops⟩
    · exact ⟨_, passes⟩
    · obtain ⟨r, passes⟩ := along
      exact absurd passes stops.moves.not_passes
  · rw [failed] at along
    obtain ⟨⟨grown, plain⟩, -⟩ := kept.of_error ⟨.refl _ _ t, site.plain⟩ failed
    have same : ∀ {v : Tree} {c : Cause}, v.Plain → v.Stops R (above.filter (· != .stay)) c →
        v.Stops R above c := by
      intro v c plain closed
      rcases plain.passes_or_stops R hup with passes | ⟨c', stops⟩
      · exact absurd passes.moves closed.not_passes
      · exact closed.unique stops.moves ▸ stops
    rcases along with ⟨rfl, long⟩ | ⟨rfl, file⟩
    · exact Or.inl ⟨rfl, same plain long⟩
    · exact Or.inr ⟨rfl, same plain file⟩

theorem makeDirs_ok (site : t.Site root R) (descends : path.Descends q)
    (h : makeDirs (root.join path) t = .ok () u) :
    u.get? (R ++ q) = some .dir ∧ (root.join path).Fits ∧
      makeDirs (root.join path) u = .ok () u := by
  obtain ⟨above, n, hsteps, hup, hq⟩ := descends.steps
  obtain ⟨grown, plain⟩ := (site.keeps_makeDirs descends).of_ok ⟨.refl _ _ t, site.plain⟩ h
  have along := site.makeDirs_along (n := n) hup
  rw [makeDirs_eq root hsteps descends hq, check_bind_eq_ok_iff] at h ⊢
  obtain ⟨checked, made⟩ := h
  rw [made] at along
  have again : makeAfter
      (makeMoves ((above.filterMap Step.name?).reverse.map .name ++ root.moves.reverse))
      (root.steps ++ (above ++ [.name n])) u = .ok () u :=
    along.again_ok plain (site.passes.grown grown)
  rw [← List.append_assoc] at again
  obtain ⟨r, down⟩ := along
  have whole := (site.passes.grown grown).append down
  have steps := Path.steps_join root descends.relative
  rw [hsteps] at steps
  obtain rfl := down.eq_names (by simp [hup])
  have there := (whole.standing standing_nil).get?
  rw [List.filterMap_append] at there
  exact ⟨hq ▸ there, ⟨checked, steps ▸ whole.fits⟩, checked, again⟩

theorem makeDirs_error (site : t.Site root R) (descends : path.Descends q)
    (h : makeDirs (root.join path) t = .error c u) :
    makeDirs (root.join path) u = .error c u ∧ (u = t ∨ ¬ (root.join path).Fits) := by
  obtain ⟨above, n, hsteps, hup, hq⟩ := descends.steps
  obtain ⟨⟨grown, plain⟩, -⟩ :=
    (site.keeps_makeDirs descends).of_error ⟨.refl _ _ t, site.plain⟩ h
  have along := site.makeDirs_along (n := n) hup
  rw [makeDirs_eq root hsteps descends hq, check_bind_eq_error_iff] at h ⊢
  rcases h with ⟨refused, same⟩ | ⟨checked, failed⟩
  · exact ⟨Or.inl ⟨refused, rfl⟩, Or.inl same⟩
  · rw [failed] at along
    refine ⟨Or.inr ⟨checked, along.again_error plain (site.passes.grown grown) failed⟩, ?_⟩
    rcases along with ⟨-, stops⟩ | ⟨same, -⟩
    · right
      rintro ⟨-, fits⟩
      obtain ⟨m, hm, long⟩ := stops.exists_long
      refine fits m ?_ long
      rw [Path.steps_join root descends.relative, hsteps]
      exact List.mem_append_right _ hm
    · exact Or.inl same

theorem makeParents_again_ok (site : t.Site root R) (descends : path.Descends q)
    (h : makeParents (root.join path) t = .ok () u) :
    makeParents (root.join path) u = .ok () u := by
  obtain ⟨above, n, -, -, hq⟩ := descends.steps
  rw [makeParents_eq root descends hq, check_bind_eq_ok_iff] at h ⊢
  exact ⟨h.1, site.makeMoves_again_ok _ h.2⟩

theorem makeParents_again_error (site : t.Site root R) (descends : path.Descends q)
    (h : makeParents (root.join path) t = .error c u) :
    makeParents (root.join path) u = .error c u := by
  obtain ⟨above, n, -, -, hq⟩ := descends.steps
  rw [makeParents_eq root descends hq, check_bind_eq_error_iff] at h ⊢
  rcases h with ⟨refused, -⟩ | ⟨checked, failed⟩
  · exact Or.inl ⟨refused, rfl⟩
  · exact Or.inr ⟨checked, site.makeMoves_again_error _ failed⟩

/-- The write of a file that failed fails again. -/
theorem write_error_again (site : t.Site root R) (descends : path.Descends q)
    (h : write (root.join path) text t = .error c u) :
    write (root.join path) text u = .error c u := by
  rw [write_eq_error_iff] at h ⊢
  rcases h with failed | ⟨made, failed⟩
  · exact Or.inl (site.makeParents_again_error descends failed)
  · exact Or.inr ⟨site.makeParents_again_ok descends made, failed⟩

end Site

end ComponentForge.Tree

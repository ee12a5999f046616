import ComponentForge.Proofs.Tree.Plain

/-!
# What accesses do to a tree without links

A site is a tree without links in which a root path leads through directories. A path that goes down
from the root has its route below the route of the root. Whatever the outcome of an access, new
directories stand only on the way down to this route, a write fills nothing but the route, and a
removal takes away nothing but what stands there or below.
-/

namespace ComponentForge

/-- The path is not refused, and no name on it is too long. -/
structure Path.Fits (path : Path) : Prop where
  checked : Tree.checkPath path = .ok ()
  names : ∀ n, .name n ∈ path.steps → ¬ Tree.maxNameSize < n.byteSize

namespace Tree

/-- The root path leads through directories to the route `R`. -/
structure Site (t : Tree) (root : Path) (R : Route) : Prop where
  plain : t.Plain
  passes : t.Passes [] root.steps R

/-- Nothing is new but directories below `R` on the way along the names. -/
def Grown (R q : Route) (t u : Tree) : Prop :=
  ∀ s, u.get? s = t.get? s ∨
    (∃ p, p ≠ [] ∧ p <+: q ∧ s = R ++ p) ∧ t.get? s = none ∧ u.get? s = some .dir

/-- Nothing is gone but what stood at the route or below. -/
def Shrunk (r : Route) (t u : Tree) : Prop :=
  ∀ s, u.get? s = t.get? s ∨ r <+: s ∧ u.get? s = none

/-- A file with this text stands below `R` at the end of the names, and nothing else is new but the
directories before it. -/
structure Filled (R q : Route) (text : Text) (t u : Tree) : Prop where
  holds : u.get? (R ++ q) = some (.file (.text text))
  others : ∀ s, s ≠ R ++ q → u.get? s = t.get? s ∨
    (∃ p, p ≠ [] ∧ p <+: q.dropLast ∧ s = R ++ p) ∧ t.get? s = none ∧ u.get? s = some .dir

variable {t u v : Tree} {R q r : Route} {steps : List Step}

theorem Grown.refl (R q : Route) (t : Tree) : Grown R q t t :=
  fun _ => Or.inl rfl

theorem Grown.trans (h : Grown R q t u) (h' : Grown R q u v) : Grown R q t v := by
  intro s
  rcases h s with first | ⟨way, first, dir⟩ <;> rcases h' s with second | ⟨way', second, dir'⟩
  · exact Or.inl (second.trans first)
  · exact Or.inr ⟨way', first ▸ second, dir'⟩
  · exact Or.inr ⟨way, first, second.trans dir⟩
  · simp [dir] at second

theorem Grown.mono {p : Route} (h : Grown R p t u) (hp : p <+: q) : Grown R q t u := by
  intro s
  rcases h s with same | ⟨⟨p', hne, hp', hs⟩, changed⟩
  · exact Or.inl same
  · exact Or.inr ⟨⟨p', hne, hp'.trans hp, hs⟩, changed⟩

theorem Grown.stays (h : Grown R q t u) {s : Route} {node : Node} (hs : t.get? s = some node) :
    u.get? s = some node := by
  rcases h s with same | ⟨-, gone, -⟩
  · rw [same, hs]
  · simp [hs] at gone

theorem Passes.grown {here mid : Route} (h : t.Passes here steps mid) (grown : Grown R q t u) :
    u.Passes here steps mid :=
  h.mono fun _ hs => grown.stays hs

theorem Plain.set_dir (plain : t.Plain) {d : Route} {n : Text} (hd : t.get? d = some .dir) :
    (t.set (d ++ [n]) .dir).Plain where
  no_link s target := by
    rw [get?_set t (by simp)]
    split
    · simp
    · exact plain.no_link s target
  closed s m := by
    rw [get?_set t (by simp), get?_set t (by simp)]
    by_cases hs : s = d ++ [n]
    · simp [hs]
    · rw [if_neg hs]
      split
      · rename_i same
        intro
        rw [(List.append_inj' same rfl).1, hd]
      · exact plain.closed s m

theorem grown_set_dir {n : Text} {p : Route} (hp : p ++ [n] <+: q)
    (free : t.get? (R ++ p ++ [n]) = none) : Grown R q t (t.set (R ++ p ++ [n]) .dir) := by
  intro s
  rw [get?_set t (by simp)]
  by_cases hs : s = R ++ p ++ [n]
  · exact Or.inr ⟨⟨p ++ [n], by simp, hp, by simp [hs]⟩, hs ▸ free, by simp [hs]⟩
  · exact Or.inl (by rw [if_neg hs])

theorem Plain.set_file (plain : t.Plain) {d : Route} {n : Text} {content : Content}
    (hd : t.get? d = some .dir) (free : t.get? (d ++ [n]) ≠ some .dir) :
    (t.set (d ++ [n]) (.file content)).Plain where
  no_link s target := by
    rw [get?_set t (by simp)]
    split
    · simp
    · exact plain.no_link s target
  closed s m := by
    rw [get?_set t (by simp), get?_set t (by simp)]
    intro hsome
    have above : t.get? s = some .dir := by
      split at hsome
      · rename_i same
        rw [(List.append_inj' same rfl).1, hd]
      · exact plain.closed s m hsome
    rw [if_neg, above]
    rintro rfl
    exact free above

/-- A file that holds something else. -/
theorem Plain.refill (plain : t.Plain) {old new : Content} (h : t.get? r = some (.file old)) :
    (t.set r (.file new)).Plain := by
  have hr : r ≠ [] := by
    rintro rfl
    simp [get?] at h
  constructor
  · intro s target
    rw [get?_set t hr]
    split
    · simp
    · exact plain.no_link s target
  · intro s n
    rw [get?_set t hr, get?_set t hr]
    intro hsome
    have above : t.get? s = some .dir := by
      apply plain.closed s n
      split at hsome
      · rename_i same
        simp [same, h]
      · exact hsome
    rw [if_neg, above]
    rintro rfl
    simp [h] at above

theorem filled_refill {old text : Text} (h : t.get? (R ++ q) = some (.file (.text old))) :
    Filled R q text t (t.set (R ++ q) (.file (.text text))) := by
  have hr : R ++ q ≠ [] := by
    intro hnil
    simp [hnil, get?] at h
  constructor
  · rw [get?_set t hr, if_pos rfl]
  · intro s hs
    rw [get?_set t hr, if_neg hs]
    exact Or.inl rfl

theorem place_concat {front : List Step} {n : Text} :
    t.place (front ++ [.name n]) = .ok r ↔
      ∃ d, t.walk front = .ok d ∧ t.get? d = some .dir ∧ ¬ maxNameSize < n.byteSize ∧
        d ++ [n] = r := by
  simp only [place, List.getLast?_concat, List.dropLast_concat]
  cases hwalk : t.walk front with
  | error c => simp [bind, Except.bind]
  | ok d =>
    simp only [bind, Except.bind]
    by_cases hd : t.get? d = some .dir
    · by_cases fits : maxNameSize < n.byteSize <;> simp [hd, fits]
    · simp [hd]

/-- Along directories nothing is left to be made. -/
theorem Passes.place_isSome (h : t.Passes [] steps R) (hr : t.place steps = .ok r) :
    (t.get? r).isSome := by
  have walked : t.walk steps = .ok R := h.walkWithin_eq false maxLinks
  obtain ⟨r', placed, isSome⟩ := place_of_walk walked (by simp [(h.standing standing_nil).get?])
  rw [hr] at placed
  exact Except.ok.inj placed ▸ isSome

/-- A walk that goes down from the end of a base ends below it. -/
theorem Plain.eq_of_walkWithin (plain : t.Plain) {base above : List Step} {d : Route}
    (passes : t.Passes [] base R) (hup : .up ∉ above)
    (h : t.walkWithin false maxLinks [] (base ++ above) = .ok d) (hd : t.get? d = some .dir) :
    d = R ++ above.filterMap Step.name? := by
  rw [passes.walkWithin] at h
  obtain ⟨follow, walked⟩ := walkWithin_eq_walkFrom t false maxLinks
  rw [walked] at h
  exact (plain.passes_of_walkFrom h hd).eq_names hup

namespace Site

variable {root path : Path} {text : Text}

theorem mono (site : t.Site root R) (plain : u.Plain)
    (stays : ∀ s, t.get? s = some .dir → u.get? s = some .dir) : u.Site root R :=
  ⟨plain, site.passes.mono stays⟩

theorem of_grown (site : t.Site root R) (plain : u.Plain) (h : Grown R q t u) : u.Site root R :=
  ⟨plain, site.passes.grown h⟩

theorem place_eq (site : t.Site root R) (descends : path.Descends q)
    (h : t.place (root.join path).steps = .ok r) :
    r = R ++ q ∧ t.get? (R ++ q.dropLast) = some .dir := by
  obtain ⟨above, n, hsteps, hup, rfl⟩ := descends.steps
  rw [Path.steps_join root descends.relative, hsteps, ← List.append_assoc, place_concat] at h
  obtain ⟨d, walked, hd, -, rfl⟩ := h
  obtain rfl := site.plain.eq_of_walkWithin site.passes hup walked hd
  exact ⟨by simp, by simpa using hd⟩

/-- The way to the directory of an entry is open. -/
theorem passes_above (site : t.Site root R) (descends : path.Descends q)
    (fits : (root.join path).Fits) (hd : t.get? (R ++ q.dropLast) = some .dir) :
    ∃ above n, (root.join path).steps = above ++ [.name n] ∧ q = q.dropLast ++ [n] ∧
      t.Passes [] above (R ++ q.dropLast) := by
  obtain ⟨-, names⟩ := fits
  obtain ⟨above, n, hsteps, hup, rfl⟩ := descends.steps
  rw [Path.steps_join root descends.relative, hsteps, ← List.append_assoc] at names ⊢
  rw [List.dropLast_concat] at hd ⊢
  have down := site.plain.passes_down hup
    (fun m hm => names m (List.mem_append_left _ (List.mem_append_right _ hm))) hd
  exact ⟨_, n, rfl, rfl, site.passes.append down⟩

theorem place_of_fits (site : t.Site root R) (descends : path.Descends q)
    (fits : (root.join path).Fits) (hd : t.get? (R ++ q.dropLast) = some .dir) :
    t.place (root.join path).steps = .ok (R ++ q) := by
  obtain ⟨above, n, hsteps, hq, passes⟩ := site.passes_above descends fits hd
  have names := fits.names
  have walked := passes.walkWithin_eq false maxLinks
  rw [hsteps] at names ⊢
  refine place_concat.2 ⟨_, walked, hd, names n (by simp), ?_⟩
  rw [List.append_assoc, ← hq]

/-- What stands below the root stands in a directory. -/
theorem above_of_isSome (site : t.Site root R) (descends : path.Descends q)
    (h : (t.get? (R ++ q)).isSome) : t.get? (R ++ q.dropLast) = some .dir := by
  refine site.plain.get?_of_prefix h ((List.prefix_append_right_inj R).2 q.dropLast_prefix) ?_
  intro same
  have lengths := congrArg List.length (List.append_cancel_left same)
  have pos := List.length_pos_iff.2 descends.ne_nil
  rw [List.length_dropLast] at lengths
  omega

end Site

end Tree

end ComponentForge

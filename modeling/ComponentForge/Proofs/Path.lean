import ComponentForge.Path
import ComponentForge.Proofs.Text.Split

/-!
# Paths that go down

The steps of a joined path are those of its parts. A path that goes down has names as its steps, but
for some that stay, and a name comes last without a slash after it.
-/

namespace ComponentForge

namespace Text

theorem pieces_ne_nil (isBoundary : Char → Bool) (text : Text) : text.pieces isBoundary ≠ [] := by
  cases text with
  | nil => simp [pieces]
  | cons c rest =>
    rw [pieces]
    split
    · simp
    · split <;> simp

theorem pieces_append_cons {isBoundary : Char → Bool} {c : Char} (hc : isBoundary c)
    (before after : Text) : Text.pieces isBoundary (before ++ c :: after) =
      Text.pieces isBoundary before ++ Text.pieces isBoundary after := by
  induction before with
  | nil => simp [pieces, hc]
  | cons d before ih =>
    simp only [List.cons_append, pieces, ih]
    by_cases hd : isBoundary d
    · simp [hd]
    · simp only [hd, Bool.false_eq_true, if_false]
      cases h : Text.pieces isBoundary before with
      | nil => exact absurd h (pieces_ne_nil isBoundary before)
      | cons piece more => simp

theorem pieces_of_notMem {isBoundary : Char → Bool} {text : Text}
    (h : ∀ c ∈ text, isBoundary c = false) : text.pieces isBoundary = [text] := by
  induction text with
  | nil => rfl
  | cons c rest ih =>
    have hc := h c List.mem_cons_self
    rw [pieces, ih fun d hd => h d (List.mem_cons_of_mem c hd)]
    simp [hc]

theorem exists_piece {isBoundary : Char → Bool} {c : Char} {text : Text} (hc : c ∈ text)
    (inner : isBoundary c = false) : ∃ piece ∈ text.pieces isBoundary, c ∈ piece := by
  obtain ⟨before, after, rfl⟩ := List.append_of_mem hc
  induction before with
  | nil =>
    simp only [List.nil_append, pieces, inner, Bool.false_eq_true, if_false]
    split <;> simp
  | cons d before ih =>
    obtain ⟨piece, hpiece, hc⟩ := ih (by simp)
    simp only [List.cons_append, pieces]
    split
    · exact ⟨piece, List.mem_cons_of_mem _ hpiece, hc⟩
    · cases h : pieces isBoundary (before ++ c :: after) with
      | nil => exact absurd h (pieces_ne_nil isBoundary _)
      | cons first more =>
        rw [h] at hpiece
        rcases List.mem_cons.1 hpiece with rfl | later
        · exact ⟨d :: piece, List.mem_cons_self, List.mem_cons_of_mem d hc⟩
        · exact ⟨piece, List.mem_cons_of_mem _ later, hc⟩

theorem join_pieces (c : Char) (text : Text) : join [c] (text.pieces (· == c)) = text := by
  induction text with
  | nil => rfl
  | cons d rest ih =>
    rw [pieces]
    split
    · rename_i boundary
      obtain rfl : d = c := by simpa using boundary
      cases h : pieces (· == d) rest with
      | nil => exact absurd h (pieces_ne_nil _ rest)
      | cons piece more => simpa [join, h] using ih
    · cases h : pieces (· == c) rest with
      | nil => exact absurd h (pieces_ne_nil _ rest)
      | cons piece more =>
        rw [h] at ih
        cases more <;> simpa [join] using ih

theorem join_prefix {a b : List Text} (separator : Text) (h : a <+: b) :
    join separator a <+: join separator b := by
  obtain ⟨further, rfl⟩ := h
  induction a with
  | nil => exact List.nil_prefix
  | cons piece more ih =>
    cases more with
    | nil =>
      cases further with
      | nil => exact List.prefix_refl _
      | cons next further => simp [join]
    | cons next more => exact (List.prefix_append_right_inj (piece ++ separator)).2 ih

theorem byteSize_le_of_sublist {a b : Text} (h : a.Sublist b) : byteSize a ≤ byteSize b := by
  induction h with
  | slnil => exact Nat.le_refl _
  | cons c _ ih => exact Nat.le_trans ih (Nat.le_add_left _ _)
  | cons_cons c _ ih => exact Nat.add_le_add_left ih _

theorem endsWith_append {more : Text} (h : more ≠ []) (c : Char) (text : Text) :
    Text.endsWith c (text ++ more) = Text.endsWith c more := by
  obtain ⟨front, last, rfl⟩ := List.eq_nil_or_concat more |>.resolve_left h
  simp [endsWith]

end Text

def Step.name? : Step → Option Text
  | .name n => some n
  | _ => none

/-- The text is the name of an entry of a directory. -/
structure IsName (n : Text) : Prop where
  no_slash : '/' ∉ n
  step : Path.step? n = some (.name n)

theorem IsName.ne_nil {n : Text} (h : IsName n) : n ≠ [] := by
  rintro rfl
  have := h.step
  simp [Path.step?] at this

theorem isName_iff {n : Text} :
    IsName n ↔ '/' ∉ n ∧ n ≠ [] ∧ n ≠ ['.'] ∧ n ≠ ['.', '.'] := by
  constructor
  · intro h
    have step := h.step
    refine ⟨h.no_slash, h.ne_nil, ?_, ?_⟩
    · rintro rfl
      simp [Path.step?] at step
    · rintro rfl
      simp [Path.step?] at step
  · rintro ⟨no_slash, ne_nil, ne_stay, ne_up⟩
    exact ⟨no_slash, by simp [Path.step?, ne_nil, ne_stay, ne_up]⟩

instance (n : Text) : Decidable (IsName n) :=
  decidable_of_iff' _ isName_iff

/-- A name with a character other than a dot. -/
theorem isName_of_mem {n : Text} {c : Char} (no_slash : '/' ∉ n) (hc : c ∈ n) (dotless : c ≠ '.') :
    IsName n := by
  refine ⟨no_slash, ?_⟩
  rw [Path.step?, if_neg, if_neg, if_neg]
  · rintro rfl
    simp [dotless] at hc
  · rintro rfl
    simp [dotless] at hc
  · rintro rfl
    simp at hc

namespace Path

/-- The path above is written at the start of a path. -/
theorem above_text_prefix (path : Path) : path.above.text <+: path.text := by
  have kept : (((path.text.pieces (· == '/')).reverse.dropWhile isIdle).tail.dropWhile isIdle).reverse
      <+: path.text.pieces (· == '/') := by
    rw [← List.reverse_suffix, List.reverse_reverse]
    exact (List.dropWhile_suffix _).trans ((List.tail_suffix _).trans (List.dropWhile_suffix _))
  have joined := Text.join_prefix ['/'] kept
  rwa [Text.join_pieces] at joined

theorem stepsOf_append_slash (before after : Text) :
    stepsOf (before ++ '/' :: after) = stepsOf before ++ stepsOf after := by
  rw [stepsOf, Text.pieces_append_cons (by rfl), List.filterMap_append]
  rfl

theorem stepsOf_nil : stepsOf [] = [] := rfl

theorem stepsOf_name {n : Text} (h : IsName n) : stepsOf n = [.name n] := by
  have whole : n.pieces (· == '/') = [n] := by
    apply Text.pieces_of_notMem
    intro c hc
    simp only [beq_eq_false_iff_ne]
    rintro rfl
    exact h.no_slash hc
  simp [stepsOf, whole, h.step]

theorem steps_join (base : Path) {path : Path} (relative : path.isAbsolute = false) :
    (base.join path).steps = base.steps ++ path.steps := by
  simp only [join, relative, Bool.false_eq_true, if_false]
  by_cases hbase : base.text = []
  · simp [steps, hbase, stepsOf_nil]
  · by_cases hslash : base.text.endsWith '/'
    · obtain ⟨front, hfront⟩ := Text.eq_append_of_endsWith hslash
      have whole := stepsOf_append_slash front []
      have joined := stepsOf_append_slash front path.text
      simp only [steps, hslash, Bool.or_true, if_true]
      rw [hfront, List.append_assoc, List.singleton_append, joined, whole, stepsOf_nil,
        List.append_nil]
    · simp [steps, hbase, hslash, stepsOf_append_slash]

theorem text_sublist_join (base path : Path) : path.text.Sublist (base.join path).text := by
  rw [join]
  split
  · exact List.Sublist.refl _
  · split
    · exact List.sublist_append_right _ _
    · exact (List.sublist_cons_self _ _).trans (List.sublist_append_right _ _)

theorem endsInSlash_join (base : Path) {path : Path} (relative : path.isAbsolute = false)
    (hpath : path.text ≠ []) : (base.join path).endsInSlash = path.endsInSlash := by
  simp only [join, relative, Bool.false_eq_true, if_false]
  split
  · exact Text.endsWith_append hpath '/' base.text
  · have regroup : base.text ++ '/' :: path.text = base.text ++ ['/'] ++ path.text := by simp
    simp only [endsInSlash, regroup]
    exact Text.endsWith_append hpath '/' (base.text ++ ['/'])

theorem steps_dot_join (path : Path) : ((ofString ".").join path).steps = path.steps ∨
    ((ofString ".").join path).steps = .stay :: path.steps := by
  cases absolute : path.isAbsolute with
  | true => exact Or.inl (by rw [join, if_pos absolute])
  | false => exact Or.inr (steps_join (ofString ".") absolute)

theorem endsInSlash_dot_join {path : Path} (slash : path.endsInSlash) :
    ((ofString ".").join path).endsInSlash := by
  cases absolute : path.isAbsolute with
  | true => rwa [join, if_pos absolute]
  | false =>
    rwa [endsInSlash_join _ absolute]
    intro hnil
    simp [endsInSlash, hnil, Text.endsWith] at slash

theorem isAbsolute_join {base path : Path} (hbase : base.isAbsolute = false)
    (relative : path.isAbsolute = false) (hne : base.text ≠ []) :
    (base.join path).isAbsolute = false := by
  simp only [join, relative, Bool.false_eq_true, if_false]
  cases h : base.text with
  | nil => exact absurd h hne
  | cons c rest =>
    simp only [isAbsolute, h] at hbase ⊢
    split <;> simpa using hbase

theorem isAbsolute_append {text more : Text} (hne : text ≠ []) :
    isAbsolute ⟨text ++ more⟩ = isAbsolute ⟨text⟩ := by
  cases text with
  | nil => exact absurd rfl hne
  | cons c rest => rfl

theorem exists_lead (root : Path) :
    ∃ lead, ∀ path : Path, path.isAbsolute = false → root.join path = ⟨lead ++ path.text⟩ := by
  by_cases bare : (root.text.isEmpty || root.text.endsWith '/') = true
  · exact ⟨root.text, fun path relative => by simp only [join, relative, bare]; simp⟩
  · exact ⟨root.text ++ ['/'], fun path relative => by simp only [join, relative, bare]; simp⟩

theorem join_append {base path : Path} (lead : Text) (hbase : base.text ≠ [])
    (relative : path.isAbsolute = false) :
    Path.join ⟨lead ++ base.text⟩ path = ⟨lead ++ (base.join path).text⟩ := by
  simp only [join, relative, Bool.false_eq_true, if_false, Text.endsWith_append hbase]
  by_cases slash : base.text.endsWith '/' <;> simp [hbase, slash]

/-- Below any root the second path may be joined to the first one beforehand. -/
theorem join_join {base path : Path} (root : Path) (hbase : base.text ≠ [])
    (relative : path.isAbsolute = false) : (root.join base).join path = root.join (base.join path) := by
  have kept : (base.join path).isAbsolute = base.isAbsolute := by
    simp only [join, relative, Bool.false_eq_true, if_false]
    split <;> exact isAbsolute_append hbase
  cases absolute : base.isAbsolute with
  | true => rw [join.eq_def root, if_pos absolute, join.eq_def root, if_pos (kept.trans absolute)]
  | false =>
    obtain ⟨lead, joined⟩ := root.exists_lead
    rw [joined base absolute, joined _ (kept.trans absolute), join_append lead hbase relative]

/-- The names on the way. -/
def names (path : Path) : List Text :=
  path.steps.filterMap Step.name?

/-- The path goes down along the names to an entry with the last of them. -/
structure Descends (path : Path) (q : List Text) : Prop where
  steps : ∃ above n, path.steps = above ++ [.name n] ∧ .up ∉ above ∧
    above.filterMap Step.name? ++ [n] = q
  bare : path.endsInSlash = false
  relative : path.isAbsolute = false

namespace Descends

variable {path base : Path} {q : List Text}

theorem names (h : path.Descends q) : path.names = q := by
  obtain ⟨above, n, hsteps, -, rfl⟩ := h.steps
  simp [Path.names, hsteps, Step.name?]

theorem along_names (h : path.Descends q) : path.Descends path.names := by
  rw [h.names]
  exact h

theorem no_up (h : path.Descends q) : .up ∉ path.steps := by
  obtain ⟨above, n, hsteps, hup, -⟩ := h.steps
  simp [hsteps, hup]

theorem ne_nil (h : path.Descends q) : q ≠ [] := by
  obtain ⟨above, n, -, -, rfl⟩ := h.steps
  simp

theorem text_ne_nil (h : path.Descends q) : path.text ≠ [] := by
  obtain ⟨above, n, hsteps, -⟩ := h.steps
  intro hnil
  have no_steps : path.steps = [] := by rw [Path.steps, hnil, stepsOf_nil]
  simp [no_steps] at hsteps

theorem of_name {n : Text} (h : IsName n) : Descends ⟨n⟩ [n] where
  steps := ⟨[], n, stepsOf_name h, by simp, rfl⟩
  bare := by
    rw [endsInSlash, ← Bool.not_eq_true]
    intro hslash
    obtain ⟨front, rfl : n = front ++ ['/']⟩ := Text.eq_append_of_endsWith hslash
    exact h.no_slash (by simp)
  relative := by
    cases n with
    | nil => exact absurd rfl h.ne_nil
    | cons c rest =>
      have hc : c ≠ '/' := by
        rintro rfl
        exact h.no_slash List.mem_cons_self
      simpa [isAbsolute] using hc

/-- Below a relative path without steps up. -/
theorem join_of_no_up (hup : .up ∉ base.steps) (relative : base.isAbsolute = false)
    (h : path.Descends q) : (base.join path).Descends (base.names ++ q) where
  steps := by
    obtain ⟨above, n, hsteps, habove, rfl⟩ := h.steps
    refine ⟨base.steps ++ above, n, ?_, ?_, ?_⟩
    · rw [steps_join base h.relative, hsteps, List.append_assoc]
    · simp [hup, habove]
    · simp [Path.names]
  bare := by rw [endsInSlash_join base h.relative h.text_ne_nil, h.bare]
  relative := by
    by_cases hbase : base.text = []
    · simp [Path.join, h.relative, hbase]
    · exact isAbsolute_join relative h.relative hbase

theorem join {a b : List Text} (ha : base.Descends a) (hb : path.Descends b) :
    (base.join path).Descends (a ++ b) :=
  ha.names ▸ join_of_no_up ha.no_up ha.relative hb

theorem join_eq {a b : List Text} (ha : base.Descends a) (hb : path.Descends b) :
    base.join path = ⟨base.text ++ '/' :: path.text⟩ := by
  have bare : base.text.endsWith '/' = false := ha.bare
  simp [Path.join, hb.relative, bare, ha.text_ne_nil]

end Descends

theorem steps_ne_nil {path : Path} (nonempty : path.text ≠ []) (bare : path.endsInSlash = false) :
    path.steps ≠ [] := by
  obtain ⟨front, c, htext⟩ := List.eq_nil_or_concat path.text |>.resolve_left nonempty
  have hc : (c == '/') = false := by simpa [endsInSlash, Text.endsWith, htext] using bare
  obtain ⟨piece, hpiece, mem⟩ : ∃ piece ∈ path.text.pieces (· == '/'), c ∈ piece :=
    Text.exists_piece (by simp [htext]) hc
  have hne : piece ≠ [] := List.ne_nil_of_mem mem
  obtain ⟨step, hstep⟩ : ∃ step, step? piece = some step := by
    rw [step?, if_neg hne]
    split
    · exact ⟨_, rfl⟩
    · split <;> exact ⟨_, rfl⟩
  exact List.ne_nil_of_mem (List.mem_filterMap.2 ⟨piece, hpiece, hstep⟩)

/-- The path is a row of names: it is relative and not empty, no step stays or goes up, and no slash
comes last. -/
structure OfNames (path : Path) : Prop where
  relative : path.isAbsolute = false
  nonempty : path.text ≠ []
  no_stay : .stay ∉ path.steps
  no_up : .up ∉ path.steps
  bare : path.endsInSlash = false

theorem OfNames.descends {path : Path} (h : path.OfNames) : path.Descends path.names where
  steps := by
    obtain ⟨above, last, hsteps⟩ :=
      List.eq_nil_or_concat path.steps |>.resolve_left (steps_ne_nil h.nonempty h.bare)
    rw [List.concat_eq_append] at hsteps
    have no_stay := h.no_stay
    have no_up := h.no_up
    rw [hsteps] at no_stay no_up
    cases last with
    | stay => simp at no_stay
    | up => simp at no_up
    | name n =>
      refine ⟨above, n, hsteps, fun hup => no_up (by simp [hup]), ?_⟩
      simp [names, hsteps, Step.name?]
  bare := h.bare
  relative := h.relative

/-- Of steps that do not go up the names move. -/
theorem filter_ne_stay {steps : List Step} (hup : .up ∉ steps) :
    steps.filter (· != .stay) = (steps.filterMap Step.name?).map .name := by
  induction steps with
  | nil => rfl
  | cons step rest ih =>
    rw [List.mem_cons, not_or] at hup
    cases step with
    | stay => exact ih hup.2
    | up => exact absurd rfl hup.1
    | name n => simpa [Step.name?] using ih hup.2

/-- Moves of a path that goes down from a root. -/
theorem moves_join (root : Path) {path : Path} {q : List Text} (h : path.Descends q) :
    (root.join path).moves = root.moves ++ q.map .name := by
  rw [moves, steps_join root h.relative, List.filter_append, filter_ne_stay h.no_up]
  rw [← h.names]
  rfl

end Path

end ComponentForge

import ComponentForge.Index.Edit
import ComponentForge.Proofs.Text.Rows
import Mathlib.Data.List.Infix
import Mathlib.Data.List.TakeWhile

/-!
# Searches that stay inside a line

A literal text and an identifier without line feeds are found line by line: a row that is not hit
is passed over as a whole, and the first row that is hit is the one that a removal takes away.
-/

namespace ComponentForge.Pattern

theorem skip_line {c : Char} (hc : c ≠ '\n') (body rest : Text) :
    skip c (body ++ '\n' :: rest) = skip c body ++ '\n' :: rest := by
  cases body with
  | nil => simp [skip, Ne.symm hc]
  | cons d body =>
    by_cases h : d = c
    · simp [skip, h]
    · simp [skip, h]

theorem dropWhile_line (body rest : Text) :
    (body ++ '\n' :: rest).dropWhile isSpaceOrTab =
      body.dropWhile isSpaceOrTab ++ '\n' :: rest := by
  have stop : isSpaceOrTab '\n' = false := rfl
  by_cases h : (body.dropWhile isSpaceOrTab).isEmpty
  · simp [List.dropWhile_append, stop, List.isEmpty_iff.1 h]
  · simp [List.dropWhile_append, h]

/-- Whether an entry closes is decided before the line feed. -/
theorem closesEntry_line (body rest : Text) :
    closesEntry (body ++ '\n' :: rest) = closesEntry body := by
  simp only [closesEntry]
  rw [skip_line (by decide), dropWhile_line, skip_line (by decide)]
  cases skip '\r' ((skip ',' body).dropWhile isSpaceOrTab) <;> rfl

theorem after?_line {lead : Text} (hlead : '\n' ∉ lead) (body rest : Text) :
    Text.after? (body ++ '\n' :: rest) lead =
      (Text.after? body lead).map (· ++ '\n' :: rest) := by
  induction lead generalizing body with
  | nil => simp [Text.after?]
  | cons l lead ih =>
    obtain ⟨hl, hmore⟩ := List.ne_and_not_mem_of_not_mem_cons hlead
    cases body with
    | nil => simp [Text.after?, hl]
    | cons c body =>
      by_cases h : c = l
      · simp [Text.after?, h, ih hmore]
      · simp [Text.after?, h]

/-- Whether an entry opens at the start of a line is decided by that line. -/
theorem opensEntry_line {identifier : Text} (h : '\n' ∉ identifier) (body rest : Text) :
    opensEntry identifier (body ++ '\n' :: rest) = opensEntry identifier body := by
  induction body with
  | nil =>
    have stop : isSpaceOrTab '\n' = false := rfl
    cases identifier with
    | nil => simp [opensEntry, Text.after?, closesEntry, skip, atLineEnd, stop]
    | cons c more =>
      have hc := List.ne_of_not_mem_cons h
      simp [opensEntry, Text.after?, hc, stop]
  | cons c body ih =>
    rw [List.cons_append, opensEntry, opensEntry, ih, ← List.cons_append, after?_line h,
      Option.map_map]
    simp only [Function.comp_def, closesEntry_line]

theorem eq_or_mem_skip {c d : Char} {text : Text} (h : d ∈ text) : d = c ∨ d ∈ skip c text := by
  cases text with
  | nil => simp at h
  | cons e rest =>
    by_cases he : e = c
    · rcases List.mem_cons.1 h with rfl | h
      · exact Or.inl he
      · exact Or.inr (by simpa [skip, he] using h)
    · exact Or.inr (by simpa [skip, he] using h)

theorem mem_of_mem_skip {c d : Char} {text : Text} (h : d ∈ skip c text) : d ∈ text := by
  cases text with
  | nil => exact h
  | cons e rest =>
    by_cases he : e = c
    · exact List.mem_cons_of_mem _ (by simpa [skip, he] using h)
    · simpa [skip, he] using h

theorem eq_or_mem_dropWhile {p : Char → Bool} {d : Char} {text : Text} (h : d ∈ text) :
    p d ∨ d ∈ text.dropWhile p := by
  have parts := List.takeWhile_append_dropWhile (p := p) (l := text)
  rw [← parts, List.mem_append] at h
  exact h.imp_left List.mem_takeWhile_imp

/-- The characters that close an entry. -/
theorem mem_of_closesEntry {rest : Text} (hrest : '\n' ∉ rest) (closes : closesEntry rest)
    {c : Char} (hc : c ∈ rest) : isSpaceOrTab c ∨ c = ',' ∨ c = '\r' := by
  have at_end : skip '\r' ((skip ',' rest).dropWhile isSpaceOrTab) = [] := by
    cases hskip : skip '\r' ((skip ',' rest).dropWhile isSpaceOrTab) with
    | nil => rfl
    | cons d more =>
      rw [closesEntry, hskip] at closes
      obtain rfl : d = '\n' := by simpa [atLineEnd] using closes
      have inside : '\n' ∈ skip '\r' ((skip ',' rest).dropWhile isSpaceOrTab) := by simp [hskip]
      have hmem := mem_of_mem_skip ((List.dropWhile_suffix _).subset (mem_of_mem_skip inside))
      exact absurd hmem hrest
  rcases eq_or_mem_skip (c := ',') hc with rfl | hc
  · exact Or.inr (Or.inl rfl)
  · rcases eq_or_mem_dropWhile hc with hspace | hc
    · exact Or.inl hspace
    · rcases eq_or_mem_skip (c := '\r') hc with rfl | hc
      · exact Or.inr (Or.inr rfl)
      · simp [at_end] at hc

/-- The characters of an entry line. -/
theorem mem_of_opensEntry {identifier body : Text} (hbody : '\n' ∉ body)
    (hit : opensEntry identifier body) {c : Char} (hc : c ∈ body) :
    isSpaceOrTab c ∨ c ∈ identifier ∨ c = ',' ∨ c = '\r' := by
  induction body with
  | nil => simp at hc
  | cons d body ih =>
    rw [opensEntry, Bool.or_eq_true, Bool.and_eq_true] at hit
    rcases hit with here | ⟨hspace, further⟩
    · cases found : Text.after? (d :: body) identifier with
      | none => simp [found] at here
      | some rest =>
        have closes : closesEntry rest := by simpa [found] using here
        rw [Text.after?_eq_some_iff] at found
        rw [found] at hc hbody
        rcases List.mem_append.1 hc with hc | hc
        · exact Or.inr (Or.inl hc)
        · have hrest : '\n' ∉ rest := fun h => hbody (List.mem_append_right _ h)
          exact (mem_of_closesEntry hrest closes hc).imp_right Or.inr
    · rcases List.mem_cons.1 hc with rfl | hc
      · exact Or.inl hspace
      · exact ih (List.not_mem_of_not_mem_cons hbody) further hc

theorem splitListing?_inside (identifier : Text) {body : Text} (hbody : '\n' ∉ body)
    (rest : Text) :
    splitListing? identifier false (body ++ '\n' :: rest) =
      (splitListing? identifier true rest).map fun (before, after) =>
        (body ++ '\n' :: before, after) := by
  induction body with
  | nil => simp [splitListing?]
  | cons c body ih =>
    obtain ⟨hc, hmore⟩ := List.ne_and_not_mem_of_not_mem_cons hbody
    simp [splitListing?, beq_eq_false_iff_ne.2 hc.symm, ih hmore, Function.comp_def]

theorem splitListing?_inside_last {identifier text : Text} (h : '\n' ∉ text) :
    splitListing? identifier false text = none := by
  induction text with
  | nil => simp [splitListing?]
  | cons c rest ih =>
    obtain ⟨hc, hrest⟩ := List.ne_and_not_mem_of_not_mem_cons h
    simp [splitListing?, beq_eq_false_iff_ne.2 hc.symm, ih hrest]

theorem splitListing?_line {identifier body : Text} (h : '\n' ∉ identifier)
    (hbody : '\n' ∉ body) (rest : Text) :
    splitListing? identifier true (body ++ '\n' :: rest) =
      if opensEntry identifier body then some ([], body ++ '\n' :: rest)
      else (splitListing? identifier true rest).map fun (before, after) =>
        (body ++ '\n' :: before, after) := by
  have opens := opensEntry_line h body rest
  cases body with
  | nil =>
    rw [List.nil_append] at opens ⊢
    rw [splitListing?, opens]
    simp
  | cons c body =>
    obtain ⟨hc, hmore⟩ := List.ne_and_not_mem_of_not_mem_cons hbody
    have inside := splitListing?_inside identifier hmore rest
    rw [List.cons_append] at opens ⊢
    rw [splitListing?, opens, beq_eq_false_iff_ne.2 hc.symm, inside]
    simp [Function.comp_def]

/-- The pattern lies inside a line and is not empty. -/
def OneLine : Pattern → Prop
  | literal text => text ≠ [] ∧ '\n' ∉ text
  | entry identifier => identifier ≠ [] ∧ '\n' ∉ identifier

/-- The pattern matches in the row. -/
def Hits (pattern : Pattern) (row : Text) : Prop :=
  match pattern with
  | literal text => text <:+: row
  | entry identifier => opensEntry identifier row

instance (pattern : Pattern) (row : Text) : Decidable (pattern.Hits row) :=
  match pattern with
  | literal text => inferInstanceAs (Decidable (text <:+: row))
  | entry identifier => inferInstanceAs (Decidable (opensEntry identifier row))

theorem hits_nil_iff {pattern : Pattern} :
    pattern.Hits [] ↔ pattern = .literal [] ∨ pattern = .entry [] := by
  cases pattern with
  | literal text => simp [Hits]
  | entry identifier =>
    cases identifier with
    | nil => simp [Hits, opensEntry, Text.after?, closesEntry, skip, atLineEnd]
    | cons c more => simp [Hits, opensEntry, Text.after?]

/-- A line starts behind the text, which itself begins at the start of a line or not. -/
def StartsLineAfter (lineStart : Bool) (before : Text) : Prop :=
  ∀ c ∈ before.getLast?.or (if lineStart then none else some ' '), c = '\n'

theorem startsLineAfter_nil {lineStart : Bool} : StartsLineAfter lineStart [] ↔ lineStart := by
  cases lineStart <;> simp [StartsLineAfter]

theorem startsLineAfter_cons {lineStart : Bool} {c : Char} {before : Text} :
    StartsLineAfter lineStart (c :: before) ↔ StartsLineAfter (c == '\n') before := by
  cases before with
  | nil => by_cases h : c = '\n' <;> simp [StartsLineAfter, h]
  | cons d more => simp [StartsLineAfter, List.getLast?_cons_cons]

/-- A search for an entry splits the text at the start of a line with one. -/
theorem matches_of_splitListing? {identifier text before after : Text} {lineStart : Bool}
    (h : splitListing? identifier lineStart text = some (before, after)) :
    StartsLineAfter lineStart before ∧ opensEntry identifier after := by
  induction text generalizing before lineStart with
  | nil =>
    rw [splitListing?] at h
    split at h
    · rename_i opens
      obtain ⟨rfl, rfl⟩ := Prod.mk.inj (Option.some.inj h)
      rwa [startsLineAfter_nil, ← Bool.and_eq_true]
    · cases h
  | cons c rest ih =>
    rw [splitListing?] at h
    split at h
    · rename_i opens
      obtain ⟨rfl, rfl⟩ := Prod.mk.inj (Option.some.inj h)
      rwa [startsLineAfter_nil, ← Bool.and_eq_true]
    · obtain ⟨⟨b, a⟩, found, same⟩ := Option.map_eq_some_iff.1 h
      obtain ⟨rfl, rfl⟩ := Prod.mk.inj same
      rw [startsLineAfter_cons]
      exact ih found

/-- A search splits the text at a match. -/
theorem hits_of_split? {pattern : Pattern} {text before after : Text}
    (h : pattern.split? text = some (before, after)) : pattern.Hits after := by
  cases pattern with
  | literal needle => exact (Text.prefix_of_splitBefore? h).isInfix
  | entry identifier => exact (matches_of_splitListing? h).2

theorem OneLine.hits_terminated {pattern : Pattern} (one : pattern.OneLine) (body : Text) :
    pattern.Hits (body ++ ['\n']) ↔ pattern.Hits body := by
  cases pattern with
  | literal text =>
    simp only [Hits]
    rw [Text.infix_append_cons_iff one.1 one.2]
    simp [one.1]
  | entry identifier =>
    simp only [Hits]
    rw [opensEntry_line one.2]

theorem OneLine.split?_line {pattern : Pattern} (one : pattern.OneLine) {body : Text}
    (hbody : '\n' ∉ body) (miss : ¬ pattern.Hits body) (rest : Text) :
    pattern.split? (body ++ '\n' :: rest) =
      (pattern.split? rest).map fun (before, after) => (body ++ '\n' :: before, after) := by
  cases pattern with
  | literal text =>
    have none_here : body.splitBefore? text = none := Text.splitBefore?_eq_none_iff.2 miss
    rw [split?, split?, Text.splitBefore?_append_cons one.1 one.2, none_here]
    rfl
  | entry identifier =>
    have none_here : ¬ opensEntry identifier body = true := miss
    rw [split?, split?, splitListing?_line one.2 hbody, if_neg none_here]

/-- Rows that are not hit are passed over. -/
theorem OneLine.split?_rows {pattern : Pattern} (one : pattern.OneLine) {above : List Text}
    (terminated : ∀ row ∈ above, Text.Terminated row) (miss : ∀ row ∈ above, ¬ pattern.Hits row)
    (rest : Text) :
    pattern.split? (above.flatten ++ rest) =
      (pattern.split? rest).map fun (before, after) => (above.flatten ++ before, after) := by
  induction above with
  | nil => simp
  | cons row above ih =>
    obtain ⟨body, hbody, rfl⟩ := terminated row List.mem_cons_self
    have hmiss := miss _ List.mem_cons_self
    rw [one.hits_terminated] at hmiss
    have habove := ih (fun r hr => terminated r (List.mem_cons_of_mem _ hr))
      fun r hr => miss r (List.mem_cons_of_mem _ hr)
    have regroup : ((body ++ ['\n']) :: above).flatten ++ rest =
        body ++ '\n' :: (above.flatten ++ rest) := by simp
    rw [regroup, one.split?_line hbody hmiss, habove]
    simp [Function.comp_def]

/-- The first match lies in the first row that is hit, and an entry is matched from its start. -/
theorem OneLine.split?_of_hits {pattern : Pattern} (one : pattern.OneLine) {body : Text}
    (hbody : '\n' ∉ body) (hit : pattern.Hits body) (rest : Text) :
    ∃ before after, before ++ after = body ∧
      pattern.split? (body ++ '\n' :: rest) = some (before, after ++ '\n' :: rest) ∧
      (∀ identifier, pattern = entry identifier → before = []) := by
  cases pattern with
  | literal text =>
    have found : body.splitBefore? text ≠ none := by
      rw [Ne, Text.splitBefore?_eq_none_iff, not_not]
      exact hit
    obtain ⟨⟨before, after⟩, hsplit⟩ := Option.ne_none_iff_exists'.1 found
    refine ⟨before, after, Text.append_of_splitBefore? hsplit, ?_, by simp⟩
    rw [split?, Text.splitBefore?_append_cons one.1 one.2, hsplit]
    rfl
  | entry identifier =>
    have opens : opensEntry identifier body = true := hit
    refine ⟨[], body, rfl, ?_, fun _ _ => rfl⟩
    rw [split?, splitListing?_line one.2 hbody, if_pos opens]

theorem OneLine.split?_eq_none {pattern : Pattern} (one : pattern.OneLine) {text : Text}
    (miss : ∀ row ∈ text.rows, ¬ pattern.Hits row) : pattern.split? text = none := by
  induction text using Text.lineInduction with
  | line body rest hbody ih =>
    rw [Text.rows_line_append hbody] at miss
    have hmiss := miss _ List.mem_cons_self
    rw [one.hits_terminated] at hmiss
    rw [one.split?_line hbody hmiss, ih fun row hrow => miss row (List.mem_cons_of_mem _ hrow)]
    rfl
  | last text hlast =>
    cases text with
    | nil =>
      cases pattern with
      | literal needle => exact Text.splitBefore?_eq_none_iff.2 (by simpa using one.1)
      | entry identifier =>
        cases identifier with
        | nil => exact absurd rfl one.1
        | cons c more => simp [split?, splitListing?, opensEntry, Text.after?]
    | cons c more =>
      have hmiss := miss (c :: more) (by simp [Text.rows_of_notMem hlast])
      cases pattern with
      | literal needle => exact Text.splitBefore?_eq_none_iff.2 hmiss
      | entry identifier =>
        have none_here : opensEntry identifier (c :: more) = false := by simpa [Hits] using hmiss
        obtain ⟨hc, hmore⟩ := List.ne_and_not_mem_of_not_mem_cons hlast
        simp [split?, splitListing?, none_here, beq_eq_false_iff_ne.2 hc.symm,
          splitListing?_inside_last hmore]

/-- A search fails exactly when no row is hit. -/
theorem OneLine.split?_eq_none_iff {pattern : Pattern} (one : pattern.OneLine) {text : Text} :
    pattern.split? text = none ↔ ∀ row ∈ text.rows, ¬ pattern.Hits row := by
  refine ⟨fun h => ?_, one.split?_eq_none⟩
  induction text using Text.lineInduction with
  | line body rest hbody ih =>
    rw [Text.rows_line_append hbody]
    have miss : ¬ pattern.Hits body := by
      intro hit
      obtain ⟨before, after, -, found, -⟩ := one.split?_of_hits hbody hit rest
      rw [found] at h
      exact absurd h (by simp)
    rw [one.split?_line hbody miss, Option.map_eq_none_iff] at h
    intro row hrow
    rcases List.mem_cons.1 hrow with rfl | hrow
    · rwa [one.hits_terminated]
    · exact ih h row hrow
  | last text hlast =>
    intro row hrow hit
    have hne : text ≠ [] := by
      rintro rfl
      simp [Text.rows] at hrow
    rw [Text.rows_of_notMem hlast hne, List.mem_singleton] at hrow
    subst hrow
    cases pattern with
    | literal needle => exact Text.splitBefore?_eq_none_iff.1 h hit
    | entry identifier =>
      cases row with
      | nil => exact hne rfl
      | cons c more =>
        have opens : opensEntry identifier (c :: more) = true := hit
        simp [split?, splitListing?, opens] at h

end ComponentForge.Pattern

namespace ComponentForge.Index

open Text

/-- What goes with a place after a line feed is the row of the place up to there. -/
theorem splitEnd_rows {above : List Text} (terminated : ∀ row ∈ above, Terminated row) {before : Text}
    (hbefore : '\n' ∉ before) :
    splitEnd (· != '\n') (above.flatten ++ before) = (above.flatten, before) := by
  apply splitEnd_append_of_last
  · intro c hc
    by_cases habove : above = []
    · simp [habove] at hc
    · rw [getLast?_flatten terminated habove] at hc
      obtain rfl : '\n' = c := by simpa using hc
      rfl
  · intro c hc
    simpa using fun e : c = '\n' => hbefore (e ▸ hc)

/-- A place inside a terminated row takes the row away and nothing else. -/
theorem removeLineAt_rows {above : List Text} (terminated : ∀ row ∈ above, Terminated row)
    {before after : Text} (hbefore : '\n' ∉ before) (hafter : '\n' ∉ after) (rest : Text) :
    removeLineAt (above.flatten ++ before) (after ++ '\n' :: rest) = above.flatten ++ rest := by
  rw [removeLineAt, cut?_char hafter, splitEnd_rows terminated hbefore]

/-- A place inside a last row without a line feed takes the line feed above it away as well. -/
theorem removeLineAt_last {above : List Text} (terminated : ∀ row ∈ above, Terminated row)
    {before after : Text} (hbefore : '\n' ∉ before) (hafter : '\n' ∉ after) :
    removeLineAt (above.flatten ++ before) after = above.flatten.dropLast := by
  have uncut : after.cut? ['\n'] = none := by
    rw [Text.cut?, Text.splitBefore?_eq_none_iff.2]
    · rfl
    · exact fun inside => hafter (inside.subset (by simp))
  rw [removeLineAt, uncut, splitEnd_rows terminated hbefore]

/-- Removal takes away the first row that is hit. -/
theorem removeLine?_of_hits {pattern : Pattern} (one : pattern.OneLine) {above : List Text}
    (terminated : ∀ row ∈ above, Terminated row) (miss : ∀ row ∈ above, ¬ pattern.Hits row)
    {row : Text} (hrow : Terminated row) (hit : pattern.Hits row) (rest : Text) :
    removeLine? (above.flatten ++ row ++ rest) pattern = some (above.flatten ++ rest) := by
  obtain ⟨body, hbody, rfl⟩ := hrow
  rw [one.hits_terminated] at hit
  obtain ⟨before, after, rfl, hsplit, -⟩ := one.split?_of_hits hbody hit rest
  simp only [List.mem_append, not_or] at hbody
  have regroup : above.flatten ++ (before ++ after ++ ['\n']) ++ rest =
      above.flatten ++ (before ++ after ++ '\n' :: rest) := by simp
  rw [removeLine?, regroup, one.split?_rows terminated miss, hsplit]
  simp [removeLineAt_rows terminated hbody.1 hbody.2]

theorem removeLine?_eq_none {pattern : Pattern} (one : pattern.OneLine) {text : Text}
    (miss : ∀ row ∈ text.rows, ¬ pattern.Hits row) : removeLine? text pattern = none := by
  rw [removeLine?, one.split?_eq_none miss]
  rfl

end ComponentForge.Index

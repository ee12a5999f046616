import ComponentForge.Proofs.Index.Insertion
import Mathlib.Data.List.Forall2

/-!
# What deletions leave

In any text a deletion takes out the first row that is hit, and a row that stays may lose its line
feed at the end of the text or its comma at the end of the zone. So every row that a deletion leaves
was there before, up to these two.
-/

namespace ComponentForge.Index

open Text

/-- What a deletion may leave of a row. -/
inductive Faded (row : Text) : Text → Prop
  | same : Faded row row
  | unbroken {body : Text} : row = body ++ ['\n'] → Faded row body
  | bare : Terminated row → row.splitBreak.1.trimEnd.endsWith ',' →
    Faded row (row.splitBreak.1.trimEnd.dropLast ++ row.splitBreak.2)

/-- A row that is hit is lost, and every row of the new text is left of one of the others. -/
def Loses (pattern : Pattern) (content new : Text) : Prop :=
  ∃ above row below kept, content.rows = above ++ row :: below ∧ pattern.Hits row ∧
    kept.Sublist (above ++ below) ∧ List.Forall₂ Faded kept new.rows

/-- The first row that is hit is taken out, with the number of rows above it. -/
inductive Taken (pattern : Pattern) (content : Text) : Nat → Text → Prop
  | line {above below : List Text} {row : Text} : content.rows = above ++ row :: below →
    pattern.Hits row → (∀ other ∈ above, ¬ pattern.Hits other) →
    (∀ other ∈ above ++ [row], Terminated other) →
    Taken pattern content above.length (above.flatten ++ below.flatten)
  | last {above : List Text} {row : Text} : content.rows = above ++ [row] →
    pattern.Hits row → (∀ other ∈ above, ¬ pattern.Hits other) → '\n' ∉ row →
    Taken pattern content above.length above.flatten.dropLast

section Search

variable {content new : Text} {pattern : Pattern}

theorem exists_first {rows : List Text} {p : Text → Prop} (h : ∃ row ∈ rows, p row) :
    ∃ above row below, rows = above ++ row :: below ∧ p row ∧ ∀ other ∈ above, ¬ p other := by
  induction rows with
  | nil => simp at h
  | cons first more ih =>
    by_cases here : p first
    · exact ⟨[], first, more, rfl, here, by simp⟩
    · have further : ∃ row ∈ more, p row := by
        obtain ⟨row, mem, hrow⟩ := h
        rcases List.mem_cons.1 mem with rfl | mem
        · exact absurd hrow here
        · exact ⟨row, mem, hrow⟩
      obtain ⟨above, row, below, rfl, hrow, miss⟩ := ih further
      refine ⟨first :: above, row, below, rfl, hrow, ?_⟩
      simpa using ⟨here, miss⟩

/-- In a last row without a line feed the match begins in the row. -/
theorem split?_of_last {row : Text} (one : pattern.OneLine) (hrow : '\n' ∉ row) (hne : row ≠ [])
    (hit : pattern.Hits row) : ∃ before after, pattern.split? row = some (before, after) ∧
      before ++ after = row ∧ ∀ identifier, pattern = .entry identifier → before = [] := by
  have found : pattern.split? row ≠ none := by
    intro none
    rw [one.split?_eq_none_iff, rows_of_notMem hrow hne] at none
    exact none row (by simp) hit
  obtain ⟨⟨before, after⟩, hsplit⟩ := Option.ne_none_iff_exists'.1 found
  refine ⟨before, after, hsplit, Pattern.append_of_split? hsplit, ?_⟩
  rintro identifier rfl
  have opens : Pattern.opensEntry identifier row := hit
  cases row with
  | nil => exact absurd rfl hne
  | cons c more =>
    rw [Pattern.split?, Pattern.splitListing?, opens] at hsplit
    simp only [Bool.and_self, if_true, Option.some.injEq, Prod.mk.injEq] at hsplit
    exact hsplit.1.symm

/-- A search finds the first row that is hit, and the row goes from the place that is found. -/
theorem taken_of_split? (one : pattern.OneLine) {before after : Text}
    (h : pattern.split? content = some (before, after)) :
    Taken pattern content (before.count '\n') (removeLineAt before after) := by
  have hit : ∃ row ∈ content.rows, pattern.Hits row := by
    by_contra none
    rw [one.split?_eq_none (by simpa using none)] at h
    cases h
  obtain ⟨above, row, below, hrows, hit, miss⟩ := exists_first hit
  have terminated := terminated_of_rows_eq hrows (by simp)
  have whole : content = above.flatten ++ (row ++ below.flatten) := by
    simpa using flatten_of_rows_eq hrows
  rcases terminated_or_notMem (show row ∈ content.rows by simp [hrows]) with broken | unbroken
  · obtain ⟨body, hbody, rfl⟩ := broken
    rw [one.hits_terminated] at hit
    obtain ⟨lead, rest, rfl, split, -⟩ := one.split?_of_hits hbody hit below.flatten
    have regroup : (lead ++ rest ++ ['\n']) ++ below.flatten = lead ++ rest ++ '\n' :: below.flatten := by
      simp
    rw [whole, regroup, one.split?_rows terminated miss, split] at h
    obtain ⟨rfl, rfl⟩ : above.flatten ++ lead = before ∧ rest ++ '\n' :: below.flatten = after := by
      simpa using h
    rw [List.mem_append, not_or] at hbody
    rw [removeLineAt_rows terminated hbody.1 hbody.2, List.count_append, count_flatten terminated,
      List.count_eq_zero_of_not_mem hbody.1]
    exact .line hrows ((one.hits_terminated _).2 hit) miss
      (terminated_concat terminated ⟨_, by simpa using hbody, rfl⟩)
  · obtain rfl := eq_nil_of_rows_eq hrows unbroken
    have hne : row ≠ [] := ne_nil_of_mem_rows (show row ∈ content.rows by simp [hrows])
    obtain ⟨lead, rest, split, parts, -⟩ := split?_of_last one unbroken hne hit
    rw [List.flatten_nil, List.append_nil] at whole
    rw [whole, one.split?_rows terminated miss, split] at h
    obtain ⟨rfl, rfl⟩ : above.flatten ++ lead = before ∧ rest = after := by simpa using h
    rw [← parts, List.mem_append, not_or] at unbroken
    rw [removeLineAt_last terminated unbroken.1 unbroken.2, List.count_append,
      count_flatten terminated, List.count_eq_zero_of_not_mem unbroken.1]
    exact .last hrows hit miss (by rw [← parts]; simpa using unbroken)

theorem taken_of_removeLine? (one : pattern.OneLine) (h : removeLine? content pattern = some new) :
    ∃ number, Taken pattern content number new := by
  obtain ⟨⟨before, after⟩, split, rfl⟩ := Option.map_eq_some_iff.1 h
  exact ⟨_, taken_of_split? one split⟩

theorem Taken.exists_line {number : Nat} (h : Taken pattern content number new) :
    ∃ line, content.lines[number]? = some line := by
  cases h with
  | @line above below row hrows _ _ _ => exact ⟨row.line, by rw [Text.lines, hrows]; simp⟩
  | @last above row hrows _ _ _ => exact ⟨row.line, by rw [Text.lines, hrows]; simp⟩

theorem faded_same (rows : List Text) : List.Forall₂ Faded rows rows :=
  List.forall₂_same.2 fun _ _ => .same

theorem Taken.loses {number : Nat} (h : Taken pattern content number new) :
    Loses pattern content new := by
  cases h with
  | @line above below row hrows hit _ terminated =>
    refine ⟨above, row, below, above ++ below, hrows, hit, List.Sublist.refl _, ?_⟩
    rw [rows_append fun other mem => terminated other (List.mem_append_left _ mem), rows_below hrows]
    exact faded_same _
  | @last above row hrows hit _ _ =>
    have terminated := terminated_of_rows_eq hrows (by simp)
    rcases List.eq_nil_or_concat above with rfl | ⟨front, other, rfl⟩
    · exact ⟨[], row, [], [], hrows, hit, List.nil_sublist _, .nil⟩
    · rw [List.concat_eq_append] at *
      obtain ⟨body, hbody, rfl⟩ := terminated other (by simp)
      have front_terminated : ∀ r ∈ front, Terminated r := fun r mem =>
        terminated r (List.mem_append_left _ mem)
      by_cases empty : body = []
      · refine ⟨_, row, [], front, hrows, hit, by simp, ?_⟩
        rw [dropLast_flatten, rows_append front_terminated, empty, rows, List.append_nil]
        exact faded_same front
      · refine ⟨_, row, [], front ++ [body ++ ['\n']], hrows, hit, by simp, ?_⟩
        rw [dropLast_flatten, rows_append front_terminated, rows_of_notMem hbody empty]
        exact List.rel_append (faded_same front) (.cons (.unbroken rfl) .nil)

end Search

/-- The first entry row is taken out. If it has no comma and closes the list of the zone, the row above
it loses its comma, as far as this is a row of the zone. -/
inductive Delisted (x content : Text) : Text → Prop
  | taken {number : Nat} {new : Text} : Taken (.entry x) content number new → Delisted x content new
  | bare {above below : List Text} {last row : Text} : content.rows = above ++ last :: row :: below →
    (Pattern.entry x).Hits row → (∀ other ∈ above ++ [last], ¬ (Pattern.entry x).Hits other) →
    (∀ other ∈ above ++ [last], Terminated other) → last.splitBreak.1.trimEnd.endsWith ',' →
    row.trimEnd.endsWith ',' = false →
    (∃ zone, ExportZone.locate? content exportMarker = some zone ∧
      zone.beginLine ≤ above.length ∧ above.length + 3 = zone.endLine) →
    Delisted x content (above.flatten ++
      ((last.splitBreak.1.trimEnd.dropLast ++ last.splitBreak.2) ++ below.flatten))

section Entry

variable {content new x row : Text} {above below : List Text}

theorem exists_dropLast {text : Text} (h : text.endsWith ',') : text = text.dropLast ++ [','] := by
  obtain ⟨front, rfl⟩ := eq_append_of_endsWith h
  simp

/-- The row above an entry that closes the zone, which goes without its comma if it has one. -/
theorem exists_last (hrows : content.rows = above ++ row :: below) (hit : (Pattern.entry x).Hits row)
    (miss : ∀ other ∈ above, ¬ (Pattern.entry x).Hits other)
    (terminated : ∀ other ∈ above, Terminated other) (bare : row.trimEnd.endsWith ',' = false)
    {zone : ExportZone} (located : ExportZone.locate? content exportMarker = some zone)
    (begins : zone.beginLine < above.length) (ends : above.length + 2 = zone.endLine) :
    ∃ last, (above ++ below)[above.length - 1]? = some last ∧
      (last.splitBreak.1.trimEnd.endsWith ',' → Delisted x content
        ((above ++ below).set (above.length - 1)
          (last.splitBreak.1.trimEnd.dropLast ++ last.splitBreak.2)).flatten) := by
  rcases List.eq_nil_or_concat above with rfl | ⟨front, last, rfl⟩
  · cases begins
  · rw [List.concat_eq_append] at *
    have place : (front ++ [last]).length - 1 = front.length := by simp
    refine ⟨last, by simp, fun ended => ?_⟩
    have replaced : ((front ++ [last] ++ below).set front.length
        (last.splitBreak.1.trimEnd.dropLast ++ last.splitBreak.2)).flatten =
          front.flatten ++ ((last.splitBreak.1.trimEnd.dropLast ++ last.splitBreak.2) ++
            below.flatten) := by simp
    rw [place, replaced]
    rw [List.length_append, List.length_singleton] at begins ends
    exact .bare (by simpa using hrows) hit miss terminated ended bare
      ⟨zone, located, Nat.lt_succ_iff.1 begins, ends⟩

/-- A removal does not fail: an entry that is there is taken out. -/
theorem removeExport_cases (word : IsWord x) (content : Text) :
    (removeExport content (entry x) = .ok none ∧
      ∀ row ∈ content.rows, ¬ (Pattern.entry x).Hits row) ∨
    ∃ new, removeExport content (entry x) = .ok (some new) ∧ Delisted x content new := by
  have one := oneLine_entry word
  have marked : (entry x).marker = exportMarker := rfl
  have delimited : (entry x).commaDelimited = true := rfl
  obtain ⟨result, h⟩ : ∃ result, removeExport content (entry x) = result := ⟨_, rfl⟩
  rw [h]
  rw [removeExport, entry_identifier, marked, delimited] at h
  cases hsplit : (Pattern.entry x).split? content with
  | none =>
    rw [hsplit] at h
    exact Or.inl ⟨h.symm, one.split?_eq_none_iff.1 hsplit⟩
  | some found =>
    right
    obtain ⟨before, after⟩ := found
    have taken := taken_of_split? one hsplit
    rw [hsplit] at h
    simp only [Position.after_line, Bool.and_true, Nat.add_sub_cancel] at h
    generalize List.count '\n' before = number at taken h
    generalize removeLineAt before after = shorter at taken h
    obtain ⟨line, hline⟩ := taken.exists_line
    rw [hline] at h
    dsimp only at h
    split at h
    · rename_i zone located
      split at h
      · rename_i closing
        have bounds := ExportZone.lines_of_locate? located
        rw [Bool.and_eq_true, Bool.and_eq_true, beq_iff_eq, decide_eq_true_eq] at closing
        obtain ⟨⟨ends, begins⟩, bare⟩ := closing
        cases taken with
        | @last above row hrows _ _ _ =>
          -- the closing line stands below the row
          rw [hrows, List.length_append, List.length_singleton] at bounds
          omega
        | @line above below row hrows hit miss terminated =>
          have above_terminated : ∀ other ∈ above, Terminated other := fun other mem =>
            terminated other (List.mem_append_left _ mem)
          rw [rows_append above_terminated, rows_below hrows] at h
          have line_eq : line = row.line := by
            rw [Text.lines, hrows, ← List.length_map (f := Text.line)] at hline
            simpa using hline.symm
          rw [line_eq, trimEnd_line, Bool.not_eq_true'] at bare
          obtain ⟨last, found, delisted⟩ := exists_last hrows hit miss above_terminated bare located
            (by omega) ends.symm
          have place : above.length + 1 - 2 = above.length - 1 := rfl
          rw [place, found] at h
          dsimp only at h
          split at h
          · exact ⟨_, h.symm, delisted (by assumption)⟩
          · exact ⟨_, h.symm, .taken (.line hrows hit miss terminated)⟩
      · exact ⟨_, h.symm, .taken taken⟩
    · simp only [Bool.false_and, Bool.false_eq_true, if_false] at h
      exact ⟨_, h.symm, .taken taken⟩

theorem delisted_of_removeExport (word : IsWord x)
    (h : removeExport content (entry x) = .ok (some new)) : Delisted x content new := by
  rcases removeExport_cases word content with ⟨none, -⟩ | ⟨other, removed, delisted⟩
  · rw [h] at none
    cases none
  · rw [h] at removed
    cases removed
    exact delisted

/-- An entry that is there is removed. -/
theorem removeExport_ne_none (word : IsWord x) (h : removeExport content (entry x) = .ok none) :
    ∀ row ∈ content.rows, ¬ (Pattern.entry x).Hits row := by
  rcases removeExport_cases word content with ⟨-, miss⟩ | ⟨other, removed, -⟩
  · exact miss
  · rw [h] at removed
    cases removed

theorem rows_bare {last : Text} (hrows : content.rows = above ++ last :: row :: below)
    (terminated : ∀ other ∈ above ++ [last], Terminated other) :
    Text.rows (above.flatten ++ ((last.splitBreak.1.trimEnd.dropLast ++ last.splitBreak.2) ++
      below.flatten)) =
        above ++ (last.splitBreak.1.trimEnd.dropLast ++ last.splitBreak.2) :: below := by
  have regroup : content.rows = (above ++ [last]) ++ row :: below := by simp [hrows]
  exact rows_put (rows_below regroup) (fun other mem => terminated other (List.mem_append_left _ mem))
    (terminated_bare (terminated last (by simp)))

theorem Delisted.loses (h : Delisted x content new) : Loses (.entry x) content new := by
  cases h with
  | taken taken => exact taken.loses
  | @bare above below last row hrows hit _ terminated ended =>
    refine ⟨above ++ [last], row, below, above ++ [last] ++ below, by simp [hrows], hit,
      List.Sublist.refl _, ?_⟩
    rw [rows_bare hrows terminated, List.append_assoc]
    exact List.rel_append (faded_same above)
      (.cons (.bare (terminated last (by simp)) ended) (faded_same below))

end Entry

end ComponentForge.Index

import ComponentForge.Proofs.Index.Withdrawal
import ComponentForge.Proofs.Path

/-!
# What a reversal leaves of the lines

The lines of a text stand between its line feeds, and what stands behind the last one is a line too. A
reversal takes out the first line that holds the import line, and then the first line that is an entry;
of the other lines only one may change, by the comma at its end.
-/

namespace ComponentForge

open Index Text

namespace Text

/-- The lines of a text, which stand between its line feeds. -/
def segments (text : Text) : List Text :=
  text.pieces (· == '\n')

/-- Lines put together with a line feed between neighbours. -/
def unlines (lines : List Text) : Text :=
  join ['\n'] lines

theorem segments_line (before after : Text) :
    segments (before ++ '\n' :: after) = segments before ++ segments after :=
  pieces_append_cons rfl before after

theorem segments_of_notMem {text : Text} (h : '\n' ∉ text) : segments text = [text] := by
  apply pieces_of_notMem
  intro c hc
  simpa using fun same : c = '\n' => h (same ▸ hc)

theorem unlines_segments (text : Text) : unlines (segments text) = text := by
  induction text using lineInduction with
  | last text hlast =>
    rw [segments_of_notMem hlast]
    rfl
  | line body rest hbody ih =>
    obtain ⟨first, more, parts⟩ := List.exists_cons_of_ne_nil (pieces_ne_nil (· == '\n') rest)
    rw [unlines, segments, parts] at ih
    rw [segments_line, segments_of_notMem hbody, segments, parts, List.singleton_append, unlines, join, ih]
    · simp
    · simp

/-- A row without its line feed. -/
theorem segments_rows {above : List Text} (terminated : ∀ row ∈ above, Terminated row) (rest : Text) :
    segments (above.flatten ++ rest) = above.map List.dropLast ++ segments rest := by
  induction above with
  | nil => rfl
  | cons row above ih =>
    obtain ⟨⟨body, hbody, rfl⟩, more⟩ := List.forall_mem_cons.1 terminated
    have regroup : ((body ++ ['\n']) :: above).flatten ++ rest =
        body ++ '\n' :: (above.flatten ++ rest) := by simp
    rw [regroup, segments_line, segments_of_notMem hbody, ih more]
    simp

theorem segments_row {row : Text} (terminated : Terminated row) (rest : Text) :
    segments (row ++ rest) = row.dropLast :: segments rest := by
  simpa using segments_rows (by simpa using terminated : ∀ r ∈ [row], Terminated r) rest

end Text

namespace Index

/-- The first line that the pattern hits is gone, and the others are as they were. -/
inductive Cut (pattern : Pattern) (content : Text) : Text → Prop
  | none : (∀ line ∈ segments content, ¬ pattern.Hits line) → Cut pattern content content
  | line {above below : List Text} {line : Text} : segments content = above ++ line :: below →
    pattern.Hits line → (∀ other ∈ above, ¬ pattern.Hits other) →
    Cut pattern content (unlines (above ++ below))

/-- The first entry line is gone. If it was the last one of the zone and had no comma, the line above
it has lost the comma at its end and the white space behind it, as far as it stands in the zone too. -/
inductive CutEntry (x content : Text) : Text → Prop
  | cut {new : Text} : Cut (.entry x) content new → CutEntry x content new
  | comma {above below : List Text} {line front blanks returns : Text} {zone : ExportZone} :
    segments content = above ++ (front ++ ',' :: (blanks ++ returns)) :: line :: below →
    (Pattern.entry x).Hits line →
    (∀ other ∈ above ++ [front ++ ',' :: (blanks ++ returns)], ¬ (Pattern.entry x).Hits other) →
    line.trimEnd.endsWith ',' = false → (∀ c ∈ blanks, isBlank c) → (∀ c ∈ returns, c = '\r') →
    ExportZone.locate? content exportMarker = some zone → zone.beginLine ≤ above.length →
    above.length + 3 = zone.endLine →
    CutEntry x content (unlines (above ++ (front ++ returns) :: below))

section Lines

variable {pattern : Pattern} {content new x : Text} {above below : List Text} {number : Nat}

theorem hits_dropLast (one : pattern.OneLine) {row : Text} (terminated : Terminated row) :
    pattern.Hits row.dropLast ↔ pattern.Hits row := by
  obtain ⟨body, -, rfl⟩ := terminated
  rw [List.dropLast_concat, one.hits_terminated]

theorem trimEnd_dropLast {row : Text} (terminated : Terminated row) :
    trimEnd row.dropLast = trimEnd row := by
  obtain ⟨body, -, rfl⟩ := terminated
  rw [List.dropLast_concat, trimEnd_append_blank _ (by simp [isBlank_lineFeed])]

theorem miss_dropLast (one : pattern.OneLine) (terminated : ∀ row ∈ above, Terminated row)
    (miss : ∀ row ∈ above, ¬ pattern.Hits row) :
    ∀ line ∈ above.map List.dropLast, ¬ pattern.Hits line := by
  intro line mem hit
  obtain ⟨row, hrow, rfl⟩ := List.mem_map.1 mem
  exact miss row hrow ((hits_dropLast one (terminated row hrow)).1 hit)

theorem unlines_dropLast (terminated : ∀ row ∈ above, Terminated row) :
    unlines (above.map List.dropLast) = above.flatten.dropLast := by
  rcases List.eq_nil_or_concat above with rfl | ⟨front, last, rfl⟩
  · rfl
  · rw [List.concat_eq_append] at *
    obtain ⟨body, hbody, rfl⟩ := terminated last (by simp)
    have front_terminated : ∀ row ∈ front, Terminated row := fun row mem =>
      terminated row (List.mem_append_left _ mem)
    have whole := unlines_segments (front.flatten ++ body)
    rw [segments_rows front_terminated, segments_of_notMem hbody] at whole
    rw [dropLast_flatten, ← whole]
    simp

theorem cut_of_taken (one : pattern.OneLine) (h : Taken pattern content number new) :
    Cut pattern content new := by
  cases h with
  | @line above below row hrows hit miss terminated =>
    have above_terminated : ∀ other ∈ above, Terminated other := fun other mem =>
      terminated other (List.mem_append_left _ mem)
    have row_terminated := terminated row (by simp)
    have left := unlines_segments (above.flatten ++ below.flatten)
    rw [segments_rows above_terminated] at left
    rw [← left]
    refine .line ?_ ((hits_dropLast one row_terminated).2 hit)
      (miss_dropLast one above_terminated miss)
    rw [flatten_of_rows_eq hrows, segments_rows above_terminated, List.flatten_cons,
      segments_row row_terminated]
  | @last above row hrows hit miss unbroken =>
    have terminated := terminated_of_rows_eq hrows (by simp)
    have left := unlines_dropLast terminated
    rw [← left, ← List.append_nil (above.map List.dropLast)]
    refine .line ?_ hit (miss_dropLast one terminated miss)
    rw [flatten_of_rows_eq hrows, segments_rows terminated, List.flatten_singleton,
      segments_of_notMem unbroken]

/-- A line with a comma at its end, and what it is without the comma. -/
theorem exists_commaLine {row : Text} (terminated : Terminated row)
    (ended : row.splitBreak.1.trimEnd.endsWith ',') : ∃ front blanks returns,
      row.dropLast = front ++ ',' :: (blanks ++ returns) ∧
      (withoutComma row).dropLast = front ++ returns ∧
      (∀ c ∈ blanks, isBlank c) ∧ ∀ c ∈ returns, c = '\r' := by
  obtain ⟨blanks, whole, blank, -⟩ := exists_comma ended
  obtain ⟨-, returns, ending, -, hreturns⟩ := splitBreak_of_terminated terminated
  refine ⟨row.splitBreak.1.trimEnd.dropLast, blanks, returns, ?_, ?_, blank, hreturns⟩
  · have regroup : row.splitBreak.1.trimEnd.dropLast ++ (',' :: blanks ++ (returns ++ ['\n'])) =
        (row.splitBreak.1.trimEnd.dropLast ++ ',' :: (blanks ++ returns)) ++ ['\n'] := by simp
    conv => lhs; rw [whole, ending, regroup, List.dropLast_concat]
  · rw [withoutComma, ending, ← List.append_assoc, List.dropLast_concat]

theorem cutEntry_of_delisted (word : IsWord x) (h : Delisted x content new) :
    CutEntry x content new := by
  cases h with
  | taken taken => exact .cut (cut_of_taken (oneLine_entry word) taken)
  | @bare above below last row hrows hit miss terminated ended bare closes =>
    obtain ⟨zone, located, begins, ends⟩ := closes
    have one := oneLine_entry word
    have last_terminated := terminated last (by simp)
    have above_terminated : ∀ other ∈ above, Terminated other := fun other mem =>
      terminated other (List.mem_append_left _ mem)
    -- the closing line stands below the row, so that the row has its line feed
    have row_terminated : Terminated row := by
      have bounds := ExportZone.lines_of_locate? located
      have rows : content.rows = (above ++ [last]) ++ row :: below := by simp [hrows]
      refine terminated_of_below rows ?_ row (by simp)
      rintro rfl
      simp only [hrows, List.length_append, List.length_cons, List.length_nil] at bounds
      omega
    obtain ⟨front, blanks, returns, last_line, bare_line, blank, hreturns⟩ :=
      exists_commaLine last_terminated ended
    have lines : segments content =
        above.map List.dropLast ++ (front ++ ',' :: (blanks ++ returns)) :: row.dropLast ::
          segments below.flatten := by
      rw [flatten_of_rows_eq hrows, segments_rows above_terminated, List.flatten_cons,
        List.flatten_cons, segments_row last_terminated, segments_row row_terminated, last_line]
    have bare_terminated : Terminated (withoutComma last) := terminated_bare last_terminated
    have left := unlines_segments (above.flatten ++ (withoutComma last ++ below.flatten))
    rw [segments_rows above_terminated, segments_row bare_terminated, bare_line] at left
    rw [← withoutComma, ← left]
    refine .comma lines ((hits_dropLast one row_terminated).2 hit) ?_ ?_ blank hreturns located
      (by simpa using begins) (by simpa using ends)
    · have missed := miss_dropLast one terminated miss
      rwa [List.map_append, List.map_singleton, last_line] at missed
    · rwa [trimEnd_dropLast row_terminated]

theorem not_hits_nil (one : pattern.OneLine) : ¬ pattern.Hits [] := by
  rw [Pattern.hits_nil_iff]
  rintro (rfl | rfl) <;> exact absurd rfl one.1

/-- A text that is not hit is not cut. -/
theorem cut_of_miss (one : pattern.OneLine) (miss : ∀ row ∈ content.rows, ¬ pattern.Hits row) :
    Cut pattern content content := by
  refine .none ?_
  induction content using lineInduction with
  | last text hlast =>
    rw [segments_of_notMem hlast]
    by_cases empty : text = []
    · simpa [empty] using not_hits_nil one
    · simpa [rows_of_notMem hlast empty] using miss
  | line body rest hbody ih =>
    rw [rows_line_append hbody, List.forall_mem_cons, one.hits_terminated] at miss
    rw [segments_line, segments_of_notMem hbody, List.singleton_append, List.forall_mem_cons]
    exact ⟨miss.1, ih miss.2⟩

end Lines

end Index

namespace IndexPatch

variable {patch : IndexPatch} {content new : Text}

/-- The first line that holds the import line is gone, and of what is left the first entry line. -/
inductive Reversed (patch : IndexPatch) (content : Text) : Text → Prop
  | line {new : Text} : patch.exportEntry = none → Cut (.literal patch.importLine) content new →
    Reversed patch content new
  | both {x mid new : Text} : patch.exportEntry = some (Index.entry x) →
    Cut (.literal patch.importLine) content mid → CutEntry x mid new → Reversed patch content new

theorem cut_removeLine? (regular : patch.Regular) (content : Text) : Cut (.literal patch.importLine)
    content ((removeLine? content (.literal patch.importLine)).getD content) := by
  have one := regular.line.oneLine_literal
  cases removed : removeLine? content (.literal patch.importLine) with
  | none => exact cut_of_miss one ((removeLine?_eq_none_iff regular).1 removed)
  | some mid =>
    obtain ⟨number, taken⟩ := taken_of_removeLine? one removed
    exact cut_of_taken one taken

/-- A reversal does not fail, and it says whether it changed the text. -/
theorem exists_reversed (regular : patch.Regular) (content : Text) : ∃ edited?,
    patch.revert? content = .ok edited? ∧ patch.Reversed content (edited?.getD content) := by
  have cut := cut_removeLine? regular content
  rw [revert?]
  cases hentry : patch.exportEntry with
  | none => exact ⟨_, rfl, .line hentry cut⟩
  | some listed =>
    obtain ⟨x, word, rfl⟩ := regular.entries listed hentry
    dsimp only
    rcases removeExport_cases word
      ((removeLine? content (.literal patch.importLine)).getD content) with
      ⟨removed, miss⟩ | ⟨new, removed, delisted⟩
    · rw [removed]
      exact ⟨_, rfl, .both hentry cut (.cut (cut_of_miss (oneLine_entry word) miss))⟩
    · rw [removed]
      exact ⟨_, rfl, .both hentry cut (cutEntry_of_delisted word delisted)⟩

end IndexPatch

end ComponentForge

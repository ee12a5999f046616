import ComponentForge.Proofs.Index.Search
import ComponentForge.Proofs.Index.Zone

/-!
# The import lines of an index file

Import lines that edits put in form one block below the last import statement that was there
before. On this block an insertion appends and a removal erases; the text around it stays.
-/

namespace ComponentForge.Index

open Text

theorem erase_append_cons {value : Text} {before : List Text} (h : value ∉ before)
    (after : List Text) : (before ++ value :: after).erase value = before ++ after := by
  rw [List.erase_append_right _ h, List.erase_cons_head]

/-- A line that an edit may put in as an import statement. -/
structure IsImportLine (line : Text) : Prop where
  oneLine : '\n' ∉ line
  trimmed : line.trimEnd = line
  statement : isImport line
  no_comma : ',' ∉ line
  braceless : Braceless line
  quoted : '\'' ∈ line

theorem IsImportLine.ne_nil {line : Text} (h : IsImportLine line) : line ≠ [] := by
  rintro rfl
  exact absurd h.statement (by decide)

theorem IsImportLine.oneLine_literal {line : Text} (h : IsImportLine line) :
    (Pattern.literal line).OneLine :=
  ⟨h.ne_nil, h.oneLine⟩

theorem isImport_append {row : Text} (h : isImport row) (more : Text) : isImport (row ++ more) := by
  unfold isImport at h
  split at h
  · rename_i c rest found
    rw [after?_eq_some_iff] at found
    have longer : after? (row ++ more) "import".toList = some (c :: (rest ++ more)) := by
      rw [after?_eq_some_iff, found]
      simp
    rw [isImport, longer]
    exact h
  · simp at h

theorem importRows_eq_zero_iff {rows : List Text} :
    importRows rows = 0 ↔ ∀ row ∈ rows, isImport row = false := by
  induction rows with
  | nil => simp [importRows]
  | cons row more ih =>
    rw [importRows]
    cases hmore : importRows more with
    | zero =>
      have none_below := ih.1 hmore
      simp only [List.mem_cons, forall_eq_or_imp, ite_eq_right_iff, Nat.one_ne_zero, imp_false,
        Bool.not_eq_true]
      exact ⟨fun h => ⟨h, none_below⟩, fun h => h.1⟩
    | succ n =>
      have some_below : ¬ ∀ row ∈ more, isImport row = false := by
        rw [← ih]
        omega
      simp only [List.mem_cons, forall_eq_or_imp]
      exact ⟨fun h => by omega, fun h => absurd h.2 some_below⟩

theorem importRows_append (a b : List Text) :
    importRows (a ++ b) = if importRows b = 0 then importRows a else a.length + importRows b := by
  induction a with
  | nil => by_cases h : importRows b = 0 <;> simp [importRows, h]
  | cons row a ih =>
    rw [List.cons_append, importRows, importRows, ih]
    by_cases h : importRows b = 0
    · simp [h]
    · have pos : a.length + importRows b = a.length + importRows b - 1 + 1 := by omega
      simp only [h, if_false]
      rw [pos]
      simp only [List.length_cons]
      omega

theorem importRows_of_all {rows : List Text} (h : ∀ row ∈ rows, isImport row) :
    importRows rows = rows.length := by
  induction rows with
  | nil => rfl
  | cons row more ih =>
    have hmore := ih fun r hr => h r (List.mem_cons_of_mem _ hr)
    have hrow := h row List.mem_cons_self
    rw [importRows, hmore]
    cases more with
    | nil => simp [hrow]
    | cons next more => simp

theorem importRows_le_length (rows : List Text) : importRows rows ≤ rows.length := by
  induction rows with
  | nil => simp [importRows]
  | cons row more ih =>
    rw [importRows]
    cases h : importRows more with
    | zero => simp only; split <;> simp
    | succ n => simp only [List.length_cons]; omega

/-- The last of the rows above a place is an import statement, unless there are none, and no import
statement stands below it. -/
structure ImportPlace (above : List Text) (below : Text) : Prop where
  terminated : ∀ row ∈ above, Terminated row
  last : importRows above = above.length
  none_below : ∀ row ∈ below.rows, isImport row = false

/-- The text with these import lines at the place. -/
def withImports (above : List Text) (lines : List Text) (below : Text) : Text :=
  (above ++ lines.map terminate).flatten ++ below

/-- Neither the rows above the place nor the text below it hold the line, and no other line of the
block does. -/
structure Foreign (line : Text) (above : List Text) (lines : List Text) (below : Text) : Prop where
  above : ∀ row ∈ above, ¬ line <:+: row
  below : ∀ row ∈ below.rows, ¬ line <:+: row
  others : ∀ other ∈ lines, line <:+: other → line = other

section Block

variable {above : List Text} {below : Text} {lines : List Text} {line : Text}

theorem terminated_block (habove : ∀ row ∈ above, Terminated row)
    (oneLine : ∀ l ∈ lines, '\n' ∉ l) : ∀ row ∈ above ++ lines.map terminate, Terminated row := by
  intro row hrow
  rcases List.mem_append.1 hrow with hrow | hrow
  · exact habove row hrow
  · obtain ⟨l, hl, rfl⟩ := List.mem_map.1 hrow
    exact terminated_terminate (oneLine l hl)

theorem terminated_withImports (habove : ∀ row ∈ above, Terminated row)
    (hlines : ∀ l ∈ lines, IsImportLine l) :
    ∀ row ∈ above ++ lines.map terminate, Terminated row :=
  terminated_block habove fun l hl => (hlines l hl).oneLine

theorem rows_withImports (habove : ∀ row ∈ above, Terminated row)
    (hlines : ∀ l ∈ lines, IsImportLine l) :
    (withImports above lines below).rows = above ++ lines.map terminate ++ below.rows :=
  rows_append (terminated_withImports habove hlines) below

theorem infix_terminate_iff (hline : IsImportLine line) (other : Text) :
    line <:+: terminate other ↔ line <:+: other := by
  rw [terminate, infix_append_cons_iff hline.ne_nil hline.oneLine]
  simp [hline.ne_nil]

/-- White space around a line cannot hide it. -/
theorem infix_of_trimEnd_eq {row : Text} (h : row.trimEnd = line) : line <:+: row :=
  h ▸ trimEnd_infix row

theorem hasLine_eq_false {content : Text} (absent : ∀ row ∈ content.rows, ¬ line <:+: row) :
    hasLine content line = false := by
  rw [← Bool.not_eq_true]
  intro found
  simp only [hasLine, Text.lines, List.any_map, List.any_eq_true, Function.comp_apply, trimEnd_line,
    beq_iff_eq] at found
  obtain ⟨row, hrow, same⟩ := found
  exact absent row hrow (infix_of_trimEnd_eq same)

theorem hasLine_withImports (habove : ∀ row ∈ above, Terminated row)
    (hlines : ∀ l ∈ lines, IsImportLine l) (hline : IsImportLine line)
    (foreign : Foreign line above lines below) :
    hasLine (withImports above lines below) line ↔ line ∈ lines := by
  simp only [hasLine, Text.lines, rows_withImports habove hlines, List.any_map, List.any_eq_true,
    Function.comp_apply, trimEnd_line, beq_iff_eq, List.mem_append, List.mem_map]
  constructor
  · rintro ⟨row, (hrow | ⟨other, hother, rfl⟩) | hrow, found⟩
    · exact absurd (infix_of_trimEnd_eq found) (foreign.above row hrow)
    · have inside := (infix_terminate_iff hline other).1 (infix_of_trimEnd_eq found)
      exact foreign.others other hother inside ▸ hother
    · exact absurd (infix_of_trimEnd_eq found) (foreign.below row hrow)
  · intro hmem
    refine ⟨terminate line, Or.inl (Or.inr ⟨line, hmem, rfl⟩), ?_⟩
    rw [terminate, trimEnd_append_blank _ (by simp [isBlank_lineFeed]), hline.trimmed]

/-- One more import statement goes below the block. -/
theorem insertImport_block (place : ImportPlace above below) (oneLine : ∀ l ∈ lines, '\n' ∉ l)
    (statement : ∀ l ∈ lines, isImport l) :
    insertImport (withImports above lines below) line =
      withImports above (lines ++ [line]) below := by
  have terminated := terminated_block place.terminated oneLine
  have block : ∀ row ∈ lines.map terminate, isImport row := by
    intro row hrow
    obtain ⟨l, hl, rfl⟩ := List.mem_map.1 hrow
    exact isImport_append (statement l hl) ['\n']
  have number : importRows (withImports above lines below).rows =
      (above ++ lines.map terminate).length := by
    rw [withImports, rows_append terminated, importRows_append,
      if_pos (importRows_eq_zero_iff.2 place.none_below), importRows_append,
      importRows_of_all block, place.last]
    split <;> simp_all
  rw [insertImport, number, withImports, insertLine_rows terminated]
  simp [withImports, terminate]

theorem insertImport_withImports (place : ImportPlace above below)
    (hlines : ∀ l ∈ lines, IsImportLine l) :
    insertImport (withImports above lines below) line =
      withImports above (lines ++ [line]) below :=
  insertImport_block place (fun l hl => (hlines l hl).oneLine) fun l hl => (hlines l hl).statement

theorem removeLine?_withImports (habove : ∀ row ∈ above, Terminated row)
    (hlines : ∀ l ∈ lines, IsImportLine l) (hline : IsImportLine line)
    (foreign : Foreign line above lines below) :
    removeLine? (withImports above lines below) (.literal line) =
      if line ∈ lines then some (withImports above (lines.erase line) below) else none := by
  have miss_others : ∀ other ∈ lines, line ≠ other →
      ¬ (Pattern.literal line).Hits (terminate other) := by
    intro other hother hne hit
    exact hne (foreign.others other hother ((infix_terminate_iff hline other).1 hit))
  by_cases hmem : line ∈ lines
  · obtain ⟨before, after, rfl, hbefore⟩ := List.eq_append_cons_of_mem hmem
    have hlead : ∀ l ∈ before, IsImportLine l := fun l hl => hlines l (by simp [hl])
    have miss : ∀ row ∈ above ++ before.map terminate, ¬ (Pattern.literal line).Hits row := by
      intro row hrow
      rcases List.mem_append.1 hrow with hrow | hrow
      · exact foreign.above row hrow
      · obtain ⟨l, hl, rfl⟩ := List.mem_map.1 hrow
        exact miss_others l (by simp [hl]) fun e => hbefore (e ▸ hl)
    have hit : (Pattern.literal line).Hits (terminate line) := ⟨[], ['\n'], rfl⟩
    have removed := removeLine?_of_hits hline.oneLine_literal
      (terminated_withImports habove hlead) miss (terminated_terminate hline.oneLine) hit
      ((after.map terminate).flatten ++ below)
    rw [if_pos hmem, erase_append_cons hbefore]
    simpa [withImports] using removed
  · rw [if_neg hmem]
    apply removeLine?_eq_none hline.oneLine_literal
    intro row hrow
    rw [rows_withImports habove hlines, List.mem_append, List.mem_append] at hrow
    rcases hrow with (hrow | hrow) | hrow
    · exact foreign.above row hrow
    · obtain ⟨l, hl, rfl⟩ := List.mem_map.1 hrow
      exact miss_others l hl fun e => hmem (e ▸ hl)
    · exact foreign.below row hrow

end Block

end ComponentForge.Index

import ComponentForge.Proofs.Index.LineErasure
import ComponentForge.Proofs.Index.Offsets

/-!
# Edits that stay in bounds

The edits of an index file once more, by offsets and line numbers: lines are found in one text and
looked up in the list of lines of another one, after a comma was put in or a line was taken out. Every
number that is used is in bounds there, for all texts, entries and patterns, so the edits never breach;
and they are the edits that work on the text itself.
-/

namespace ComponentForge.Guarded

open Index Text

/-- The rows with a line feed at the end of the last one. -/
def closeLast : List Text → List Text
  | [] => []
  | [row] => if row.endsWith '\n' then [row] else [row ++ ['\n']]
  | row :: more => row :: closeLast more

def insertLine (text : Text) (number : Nat) (line : Text) : Except Breach Text := do
  let number := min number text.rows.length
  let rows := if number = text.rows.length then closeLast text.rows else text.rows
  return (← insertNth rows number (line ++ ['\n'])).flatten

/-- A row's content and its line break. -/
def splitEnding (row : Text) : Except Breach (Text × Text) := do
  let body := (splitEnd (fun c => c == '\n' || c == '\r') row).1
  let (_, ending) ← cut row (byteSize body)
  return (body, ending)

def insertImport (content line : Text) : Except Breach Text :=
  insertLine content (importRows content.rows) line

/-- Without a zone there is no new text. -/
def insertExport (content : Text) (entry : ExportEntry) : Except Breach (Option Text) := do
  match ← exportZone content entry.marker with
  | none => return none
  | some zone =>
    if zone.isEmpty || !entry.commaDelimited then
      return some (← insertLine content (← minus zone.endLine 1) (entryLine entry))
    let place ← minus zone.endLine 2
    let (body, ending) ← splitEnding (← nth content.rows place)
    if body.trimEnd.endsWith ',' then
      return some (← insertLine content (← minus zone.endLine 1) (entryLine entry ++ [',']))
    let rows := content.rows.set place (body.trimEnd ++ ',' :: ending)
    return some (← insertLine rows.flatten (← minus zone.endLine 1) (entryLine entry))

/-- The text without the line that holds the offset. -/
def removeLineAt (content : Text) (offset : Nat) : Except Breach Text := do
  let (before, after) ← cut content offset
  let start := lineStart before
  match find? (.literal ['\n']) after with
  | some fed =>
    let (above, _) ← cut content start
    let (_, below) ← cut content (offset + fed + 1)
    return above ++ below
  | none =>
    -- at the start of the text there is no line feed that could go, too
    let (above, _) ← cut content (start - 1)
    return above

/-- Without a match there is no new text. -/
def removeLine (content : Text) (pattern : Pattern) : Except Breach (Option Text) := do
  match find? pattern content with
  | none => return none
  | some offset => return some (← removeLineAt content offset)

def removeExport (content : Text) (entry : ExportEntry) : Except Breach (Option Text) := do
  match ← findMarker content (.entry entry.identifier) with
  | none => return none
  | some place =>
    let zone? ← exportZone content entry.marker
    let number ← minus place.line 1
    let hadComma := content.lines[number]?.any (·.trimEnd.endsWith ',')
    let shorter := (← removeLine content (.entry entry.identifier)).getD content
    let closesZone := zone?.any fun zone =>
      zone.endLine == place.line + 1 && zone.beginLine + 1 < place.line
    if closesZone && entry.commaDelimited && !hadComma then
      let number ← minus place.line 2
      let (body, ending) ← splitEnding (← nth shorter.rows number)
      if body.trimEnd.endsWith ',' then
        return some (shorter.rows.set number (body.trimEnd.dropLast ++ ending)).flatten
    return some shorter

/-! ## Lines -/

theorem closeLast_append (above : List Text) (row : Text) : closeLast (above ++ [row]) =
    above ++ [if row.endsWith '\n' then row else row ++ ['\n']] := by
  induction above with
  | nil =>
    rw [List.nil_append, closeLast]
    split <;> rfl
  | cons first above ih =>
    cases above with
    | nil => simpa [closeLast] using ih
    | cons second more => simpa [closeLast] using ih

theorem length_closeLast (rows : List Text) : (closeLast rows).length = rows.length := by
  rcases List.eq_nil_or_concat rows with rfl | ⟨above, row, rfl⟩
  · rfl
  · rw [List.concat_eq_append, closeLast_append]
    simp

theorem insertIdx_eq {α : Type} {items : List α} {i : Nat} (h : i ≤ items.length) (item : α) :
    items.insertIdx i item = items.take i ++ item :: items.drop i := by
  induction items generalizing i with
  | nil =>
    obtain rfl : i = 0 := by simpa using h
    rfl
  | cons first items ih =>
    cases i with
    | zero => rfl
    | succ i =>
      rw [List.insertIdx_succ_cons, ih (by simpa using h)]
      rfl

theorem endsWith_append {row : Text} (h : row ≠ []) (above : Text) (c : Char) :
    (above ++ row).endsWith c = row.endsWith c := by
  rw [endsWith, endsWith, List.getLast?_append_of_ne_nil _ h]

theorem insertLine_eq (text : Text) (number : Nat) (line : Text) :
    insertLine text number line = .ok (text.insertLine number line) := by
  rw [insertLine, Text.insertLine]
  rcases Nat.lt_or_ge number text.rows.length with within | beyond
  · rw [Nat.min_eq_left (Nat.le_of_lt within), if_neg (Nat.ne_of_lt within), if_pos within,
      insertNth_of_le (Nat.le_of_lt within), insertIdx_eq (Nat.le_of_lt within)]
    rfl
  · have last : text.rows.length = (closeLast text.rows).length := (length_closeLast _).symm
    rw [Nat.min_eq_right beyond, if_pos rfl, if_neg (Nat.not_lt.2 beyond), last,
      insertNth_of_le (Nat.le_refl _), List.insertIdx_length_self, ok_bind, List.flatten_append]
    rcases List.eq_nil_or_concat text.rows with none | ⟨above, row, hrows⟩
    · obtain rfl := rows_eq_nil_iff.1 none
      simp [closeLast, rows]
      rfl
    · rw [List.concat_eq_append] at hrows
      have whole : text = above.flatten ++ row := by simpa using flatten_of_rows_eq hrows
      have hne : row ≠ [] := ne_nil_of_mem_rows (show row ∈ text.rows by simp [hrows])
      rw [hrows, closeLast_append, whole, endsWith_append hne]
      cases row.endsWith '\n' <;> simp [hne] <;> rfl

theorem splitEnding_eq (row : Text) : splitEnding row = .ok row.splitBreak := by
  have parts := splitEnd_append (fun c => c == '\n' || c == '\r') row
  have ending := cut_byteSize (splitEnd (fun c => c == '\n' || c == '\r') row).1
    (splitEnd (fun c => c == '\n' || c == '\r') row).2
  rw [parts] at ending
  rw [splitEnding, ending, splitBreak]
  rfl

theorem insertImport_eq (content line : Text) :
    insertImport content line = .ok (Index.insertImport content line) :=
  insertLine_eq content _ line

/-! ## Entries -/

theorem count_le_dropLast (text : Text) (c : Char) : text.count c ≤ text.dropLast.count c + 1 := by
  rcases List.eq_nil_or_concat text with rfl | ⟨front, last, rfl⟩
  · exact Nat.zero_le _
  · rw [List.concat_eq_append, List.dropLast_concat, List.count_append]
    exact Nat.add_le_add_left List.count_le_length _

/-- At most one line feed goes. -/
theorem count_removeLineAt (before after : Text) : (before ++ after).count '\n' ≤
    (Index.removeLineAt before after).count '\n' + 1 := by
  obtain ⟨above, lead, terminated, hlead, rfl⟩ := exists_openLine before
  by_cases broken : '\n' ∈ after
  · obtain ⟨rest, below, rfl, hrest⟩ := List.eq_append_cons_of_mem broken
    rw [removeLineAt_rows terminated hlead hrest]
    simp only [List.count_append, List.count_cons_self, List.count_eq_zero_of_not_mem hlead,
      List.count_eq_zero_of_not_mem hrest]
    omega
  · rw [removeLineAt_last terminated hlead broken]
    simp only [List.count_append, List.count_eq_zero_of_not_mem hlead,
      List.count_eq_zero_of_not_mem broken, Nat.add_zero]
    exact count_le_dropLast above.flatten '\n'

/-- The line above the one that goes is a line of the text that is left. -/
theorem exists_row_above {content marker before after : Text} {pattern : Pattern} {zone : ExportZone}
    (found : pattern.split? content = some (before, after))
    (located : ExportZone.locate? content marker = some zone)
    (ends : zone.endLine = (Position.after before).line + 1)
    (begins : zone.beginLine + 1 < (Position.after before).line) :
    ∃ last, (Index.removeLineAt before after).rows[(Position.after before).line - 2]? = some last := by
  have whole := Pattern.append_of_split? found
  have fewer := count_removeLineAt before after
  have rows := (length_rows_bounds content).2
  have left := (length_rows_bounds (Index.removeLineAt before after)).1
  have bounds := ExportZone.lines_of_locate? located
  rw [whole] at fewer
  exact ⟨_, List.getElem?_eq_getElem (by omega)⟩

section Entry

variable (content before after : Text) (entry : ExportEntry) (pattern : Pattern)

theorem insertExport_eq : ∃ new?, insertExport content entry = .ok new? ∧
    Index.insertExport content entry = new?.elim (.error (.unlocatable entry.marker)) .ok := by
  rw [insertExport, exportZone_eq, ok_bind, Index.insertExport]
  cases located : ExportZone.locate? content entry.marker with
  | none => exact ⟨none, rfl, rfl⟩
  | some zone =>
    obtain ⟨begins, lower, ends⟩ := ExportZone.lines_of_locate? located
    have last : zone.endLine - 2 < content.rows.length := by omega
    dsimp only
    rw [minus_of_le (show 1 ≤ zone.endLine by omega), minus_of_le (show 2 ≤ zone.endLine by omega)]
    by_cases alone : zone.isEmpty || !entry.commaDelimited
    · rw [if_pos alone, if_pos alone, ok_bind, insertLine_eq]
      exact ⟨some _, rfl, rfl⟩
    · rw [if_neg alone, if_neg alone, ok_bind, nth_of_getElem? (List.getElem?_eq_getElem last),
        List.getElem?_eq_getElem last]
      simp only [ok_bind, splitEnding_eq, insertLine_eq]
      split
      · exact ⟨some _, rfl, rfl⟩
      · exact ⟨some _, rfl, rfl⟩

theorem removeLineAt_byteSize :
    removeLineAt (before ++ after) (byteSize before) = .ok (Index.removeLineAt before after) := by
  have parts := splitEnd_append (· != '\n') before
  have above := cut_byteSize (splitEnd (· != '\n') before).1
    ((splitEnd (· != '\n') before).2 ++ after)
  rw [← List.append_assoc, parts] at above
  rw [removeLineAt, cut_byteSize, ok_bind, Index.removeLineAt]
  dsimp only
  rw [find?, Pattern.split?]
  by_cases broken : '\n' ∈ after
  · obtain ⟨rest, below, rfl, hrest⟩ := List.eq_append_cons_of_mem broken
    have place : byteSize before + byteSize rest + 1 = byteSize (before ++ rest ++ ['\n']) := by
      rw [byteSize_append, byteSize_append]
      rfl
    have regroup : before ++ (rest ++ '\n' :: below) = (before ++ rest ++ ['\n']) ++ below := by simp
    rw [splitBefore?_char hrest, cut?_char hrest, Option.map_some]
    dsimp only
    rw [lineStart, above, ok_bind, place, regroup, cut_byteSize]
    rfl
  · have uncut : after.cut? ['\n'] = none :=
      cut?_eq_none_iff.2 fun inside => broken (inside.subset (by simp))
    rw [splitBefore?_eq_none_iff.2 fun inside => broken (inside.subset (by simp)), uncut]
    dsimp only [Option.map_none]
    rcases List.eq_nil_or_concat (splitEnd (· != '\n') before).1 with top | ⟨kept, c, ended⟩
    · have start : lineStart before - 1 = byteSize [] := by rw [lineStart, top]; rfl
      have front := cut_byteSize [] (before ++ after)
      rw [List.nil_append] at front
      rw [start, front, top]
      rfl
    · -- what is kept ends with a line feed, which goes with the line below it
      rw [List.concat_eq_append] at ended
      have last : (c != '\n') = false := splitEnd_body c (by rw [ended]; simp)
      obtain rfl : c = '\n' := by simpa using last
      have start : lineStart before - 1 = byteSize kept := by
        rw [lineStart, ended, byteSize_append]
        exact Nat.add_sub_cancel (byteSize kept) 1
      have whole : before ++ after = kept ++ ('\n' :: ((splitEnd (· != '\n') before).2 ++ after)) := by
        conv => lhs; rw [← parts, ended]
        simp
      rw [start, whole, cut_byteSize, ended, List.dropLast_concat]
      rfl

theorem removeLine_eq : removeLine content pattern = .ok (removeLine? content pattern) := by
  rw [removeLine, find?, removeLine?]
  cases found : pattern.split? content with
  | none => rfl
  | some parts =>
    obtain ⟨before, after⟩ := parts
    obtain rfl := Pattern.append_of_split? found
    simp only [Option.map_some]
    rw [removeLineAt_byteSize]
    rfl

theorem removeExport_eq : ∃ new?, removeExport content entry = .ok new? ∧
    Index.removeExport content entry = .ok new? := by
  rw [removeExport, findMarker_eq, ok_bind, Pattern.position?, Index.removeExport]
  cases found : (Pattern.entry entry.identifier).split? content with
  | none => exact ⟨none, rfl, rfl⟩
  | some parts =>
    obtain ⟨before, after⟩ := parts
    have line := Position.after_line before
    have removed : removeLine? content (.entry entry.identifier) =
        some (Index.removeLineAt before after) := by rw [removeLine?, found]; rfl
    simp only [Option.map_some, exportZone_eq, ok_bind, removeLine_eq, removed, Option.getD_some]
    rw [minus_of_le (show 1 ≤ (Position.after before).line by omega), ok_bind]
    generalize content.lines[(Position.after before).line - 1]? = hit?
    cases located : ExportZone.locate? content entry.marker with
    | none => exact ⟨some _, rfl, rfl⟩
    | some zone =>
      dsimp only [Option.any_some]
      split
      · rename_i closing
        have bounds : zone.endLine = (Position.after before).line + 1 ∧
            zone.beginLine + 1 < (Position.after before).line := by
          simp only [Bool.and_eq_true, beq_iff_eq, decide_eq_true_eq] at closing
          exact closing.1.1
        obtain ⟨last, hlast⟩ := exists_row_above found located bounds.1 bounds.2
        rw [if_pos (by cases hit? <;> exact closing), minus_of_le (by omega), ok_bind,
          nth_of_getElem? hlast, ok_bind, splitEnding_eq, ok_bind, hlast]
        dsimp only
        split
        · exact ⟨some _, rfl, rfl⟩
        · exact ⟨some _, rfl, rfl⟩
      · rename_i open_zone
        rw [if_neg (by cases hit? <;> exact open_zone)]
        exact ⟨some _, rfl, rfl⟩

end Entry

/-- The edits never breach, and a removal of an entry never asks for a zone. -/
theorem edits_in_bounds (content : Text) (entry : ExportEntry) (pattern : Pattern) (line : Text) :
    exportZone content entry.marker = .ok (ExportZone.locate? content entry.marker) ∧
    insertImport content line = .ok (Index.insertImport content line) ∧
    removeLine content pattern = .ok (removeLine? content pattern) ∧
    (∃ new?, insertExport content entry = .ok new? ∧
      Index.insertExport content entry = new?.elim (.error (.unlocatable entry.marker)) .ok) ∧
    ∃ new?, removeExport content entry = .ok new? ∧ Index.removeExport content entry = .ok new? :=
  ⟨exportZone_eq content entry.marker, insertImport_eq content line, removeLine_eq content pattern,
    insertExport_eq content entry, removeExport_eq content entry⟩

end ComponentForge.Guarded

import ComponentForge.Proofs.Index.Extension
import ComponentForge.Proofs.Index.ZoneRows

/-!
# What an addition promises

An addition is to leave the import line on a line of its own and the entry inside the export zone. It
looks for the entry in the whole text and for the place of a new entry in the zone only, so that an
entry that stands elsewhere keeps it from the zone; and the comma that makes room for a new entry goes
to the last line of the zone, whatever stands there.
-/

namespace ComponentForge

open Index Text

namespace Index

/-- A row strictly inside the zone is an entry of the identifier. -/
def InZone (x content : Text) : Prop :=
  ∃ zone, ExportZone.locate? content exportMarker = some zone ∧
    ∃ row ∈ zone.inner content, (Pattern.entry x).Hits row

/-- The row of the number, counted from zero, is the last one between the marker and the closing brace. -/
def LastOfZone (content : Text) (number : Nat) : Prop :=
  ∃ zone, ExportZone.locate? content exportMarker = some zone ∧
    zone.beginLine ≤ number ∧ number + 2 = zone.endLine

section Rows

variable {content new line x row : Text} {zone : ExportZone} {above below : List Text} {P : Text → Prop}

theorem getElem?_put (above below : List Text) (row : Text) (i : Nat) :
    (above ++ row :: below)[i]? = if i < above.length then (above ++ below)[i]?
      else if i = above.length then some row else (above ++ below)[i - 1]? := by
  rcases Nat.lt_trichotomy i above.length with before | rfl | after
  · rw [if_pos before, List.getElem?_append_left before, List.getElem?_append_left before]
  · simp
  · obtain ⟨j, rfl⟩ : ∃ j, i = above.length + 1 + j := ⟨i - (above.length + 1), by omega⟩
    have place : above.length + 1 + j - above.length = j + 1 := by omega
    have place' : above.length + 1 + j - 1 - above.length = j := by omega
    rw [if_neg (by omega), if_neg (by omega), List.getElem?_append_right (by omega),
      List.getElem?_append_right (by omega), place, place', List.getElem?_cons_succ]

/-- A row that is put between the rows of a text does not take the others out of the zone. -/
theorem exists_inner_put (miss : ¬ P row) (hrows : content.rows = above ++ below)
    (hnew : new.rows = above ++ row :: below) :
    (∃ r ∈ (zone.insertRows above.length 1).inner new, P r) ↔ ∃ r ∈ zone.inner content, P r := by
  simp only [ExportZone.mem_inner_iff, hrows, hnew, getElem?_put, ExportZone.insertRows]
  constructor
  · rintro ⟨r, ⟨i, hi, begins, ends⟩, hr⟩
    split at hi
    · exact ⟨r, ⟨i, hi, by split at begins <;> omega, by split at ends <;> omega⟩, hr⟩
    · split at hi
      · obtain rfl := Option.some.inj hi
        exact absurd hr miss
      · exact ⟨r, ⟨i - 1, hi, by split at begins <;> omega, by split at ends <;> omega⟩, hr⟩
  · rintro ⟨r, ⟨i, hi, begins, ends⟩, hr⟩
    by_cases before : i < above.length
    · exact ⟨r, ⟨i, by rw [if_pos before, hi], by split <;> omega, by split <;> omega⟩, hr⟩
    · have place : i + 1 - 1 = i := rfl
      exact ⟨r, ⟨i + 1, by rw [if_neg (by omega), if_neg (by omega), place, hi],
        by split <;> omega, by split <;> omega⟩, hr⟩

/-- An import line comes into no list of entries and takes no entry out of the zone. -/
theorem inZone_insertImport (isLine : IsImportLine line) (word : IsWord x) :
    InZone x (insertImport content line) ↔ InZone x content := by
  have miss := not_hits_terminate word isLine
  have braceless : Braceless (terminate line) := isLine.braceless.append (by simp [Braceless])
  rw [insertImport]
  cases putAt_insertLine content line (importRows content.rows) with
  | @between above below hrows terminated length new =>
    obtain ⟨rows, located⟩ := locate?_put hrows terminated (terminated_terminate isLine.oneLine)
      braceless
    rw [terminate] at rows located
    simp only [InZone, new, located, Option.map_eq_some_iff]
    constructor
    · rintro ⟨_, ⟨zone, hzone, rfl⟩, inside⟩
      exact ⟨zone, hzone, (exists_inner_put miss hrows rows).1 inside⟩
    · rintro ⟨zone, hzone, inside⟩
      exact ⟨_, ⟨zone, hzone, rfl⟩, (exists_inner_put miss hrows rows).2 inside⟩
  | @below above row hrows last beyond new =>
    -- the zone ends above the last row, which is the only one that is redone
    have located : ExportZone.locate? (content ++ '\n' :: terminate line) exportMarker =
        ExportZone.locate? content exportMarker := by
      rw [exportMarker_eq]
      exact ExportZone.locate?_append_line (by decide) (by decide) braceless content
    have same : ∀ zone, ExportZone.locate? content exportMarker = some zone →
        zone.inner (content ++ '\n' :: terminate line) = zone.inner content := by
      intro zone hzone
      have bounds := ExportZone.lines_of_locate? hzone
      rw [hrows, List.length_append, List.length_singleton] at bounds
      rw [ExportZone.inner, ExportZone.inner, rows_append_line hrows last, hrows,
        List.take_append_of_le_length (by omega), List.take_append_of_le_length (by omega)]
    rw [InZone, InZone, new, ← terminate, located]
    constructor
    · rintro ⟨zone, hzone, inside⟩
      exact ⟨zone, hzone, same zone hzone ▸ inside⟩
    · rintro ⟨zone, hzone, inside⟩
      exact ⟨zone, hzone, (same zone hzone).symm ▸ inside⟩

/-- A row that is put above the closing line of the zone stands inside it. -/
theorem inZone_put (located : ExportZone.locate? content exportMarker = some zone)
    (hrows : content.rows = above ++ below) (ends : above.length + 1 = zone.endLine)
    (terminated : ∀ other ∈ above, Terminated other) (row_terminated : Terminated row)
    (braceless : Braceless row) (hit : (Pattern.entry x).Hits row) :
    InZone x (above.flatten ++ (row ++ below.flatten)) := by
  obtain ⟨rows, put⟩ := locate?_put hrows terminated row_terminated braceless
  have bounds := ExportZone.lines_of_locate? located
  rw [located, Option.map_some] at put
  refine ⟨_, put, row, ExportZone.mem_inner_iff.2 ⟨above.length, by simp [rows], ?_, ?_⟩, hit⟩
  · simp only [ExportZone.insertRows]
    split <;> omega
  · simp only [ExportZone.insertRows]
    split <;> omega

/-- A new entry stands inside the zone. -/
theorem inZone_of_insertExport (word : IsWord x) (h : insertExport content (entry x) = .ok new) :
    InZone x new := by
  have item := tidy_ofIdentifier word
  obtain ⟨zone, located, entered⟩ := entered_of_insertExport h
  cases entered with
  | @plain above below comma hrows ends terminated =>
    exact inZone_put located hrows ends terminated (item.terminated_row comma)
      (braceless_ofIdentifier word comma) (hits_ofIdentifier x comma)
  | @comma above below row hrows ends within terminated bare =>
    have above_terminated : ∀ other ∈ above, Terminated other := fun other mem =>
      terminated other (List.mem_append_left _ mem)
    have comma_terminated := terminated_comma (terminated row (by simp))
    have located_comma := locate?_comma (by decide) located hrows terminated within
    have rows := rows_put (rows_below hrows) above_terminated comma_terminated
    have regroup : above ++ (row.splitBreak.1.trimEnd ++ ',' :: row.splitBreak.2) :: below =
        (above ++ [row.splitBreak.1.trimEnd ++ ',' :: row.splitBreak.2]) ++ below := by simp
    have put := inZone_put located_comma (rows.trans regroup) (by simpa using ends)
      (terminated_concat above_terminated comma_terminated) (item.terminated_row false)
      (braceless_ofIdentifier word false) (hits_ofIdentifier x false)
    simpa using put

theorem hits_insertImport (isLine : IsImportLine line) (word : IsWord x) :
    (∃ row ∈ (insertImport content line).rows, (Pattern.entry x).Hits row) ↔
      ∃ row ∈ content.rows, (Pattern.entry x).Hits row := by
  have miss := not_hits_terminate word isLine
  rw [insertImport]
  cases putAt_insertLine content line (importRows content.rows) with
  | @between above below hrows terminated length new =>
    have rows := rows_put (rows_flatten_of_rows_eq hrows) terminated
      (terminated_terminate isLine.oneLine)
    rw [new, ← terminate, rows, hrows]
    simp [miss, or_and_right, exists_or]
  | @below above row hrows last beyond new =>
    have single : Text.rows (terminate line) = [terminate line] := by
      rw [terminate]
      simpa [Text.rows] using rows_line_append isLine.oneLine []
    rw [new, ← terminate, rows_append_line hrows last, single, hrows]
    simp [miss, or_and_right, exists_or, (oneLine_entry word).hits_terminated]

theorem trimEnd_item_ne (isLine : IsImportLine line) (word : IsWord x) (comma : Bool) :
    ((Item.ofIdentifier x).row comma).trimEnd ≠ line := by
  intro same
  have quoted := (infix_of_trimEnd_eq same).subset isLine.quoted
  have plain := word.notMem (c := '\'') (by decide)
  cases comma <;> simp [Item.row, Item.ofIdentifier, plain] at quoted

/-- A row that is put between others and is not the line does not matter for it. -/
theorem hasLine_put (hnew : new.rows = above ++ row :: below) (other : row.trimEnd ≠ line) :
    hasLine new line ↔ ∃ r ∈ above ++ below, r.trimEnd = line := by
  rw [hasLine_iff, hnew]
  simp [other, or_and_right, exists_or]

/-- The rows around a row are those with another number. -/
theorem mem_around_iff {other : Text} : other ∈ above ++ below ↔
    ∃ i, (above ++ row :: below)[i]? = some other ∧ i ≠ above.length := by
  simp only [getElem?_put]
  constructor
  · intro mem
    obtain ⟨i, hi⟩ := List.mem_iff_getElem?.1 mem
    by_cases before : i < above.length
    · exact ⟨i, by rw [if_pos before, hi], by omega⟩
    · have place : i + 1 - 1 = i := rfl
      exact ⟨i + 1, by rw [if_neg (by omega), if_neg (by omega), place, hi], by omega⟩
  · rintro ⟨i, hi, elsewhere⟩
    rw [if_neg elsewhere] at hi
    split at hi
    · exact List.mem_of_getElem? hi
    · exact List.mem_of_getElem? hi

theorem lastOfZone_iff (located : ExportZone.locate? content exportMarker = some zone) (i : Nat) :
    LastOfZone content i ↔ zone.beginLine ≤ i ∧ i + 2 = zone.endLine := by
  simp [LastOfZone, located]

/-- A new entry leaves an import line alone, unless this is the last row of the zone. -/
theorem hasLine_insertExport (isLine : IsImportLine line) (word : IsWord x)
    (h : insertExport content (entry x) = .ok new) : hasLine new line ↔
      ∃ i row, content.rows[i]? = some row ∧ row.trimEnd = line ∧ ¬ LastOfZone content i := by
  have no_item := trimEnd_item_ne isLine word
  obtain ⟨zone, located, entered⟩ := entered_of_insertExport h
  simp only [lastOfZone_iff located]
  cases entered with
  | @plain above below comma hrows ends terminated last =>
    rw [hasLine_put (rows_put (rows_flatten_of_rows_eq hrows) terminated
      ((tidy_ofIdentifier word).terminated_row comma)) (no_item comma), ← hrows]
    -- the last row of the zone, if there is one, ends with a comma
    have stays : ∀ i row, content.rows[i]? = some row → row.trimEnd = line →
        ¬ (zone.beginLine ≤ i ∧ i + 2 = zone.endLine) := by
      rintro i row hi trimmed ⟨begins, ends'⟩
      have place : above.length - 1 = i := by omega
      rw [hrows, List.getElem?_append_left (by omega)] at hi
      have ended := last (by omega) row (by rw [List.getLast?_eq_getElem?, place, hi]; rfl)
      rw [trimEnd_splitBreak, trimmed] at ended
      obtain ⟨front, rfl⟩ := eq_append_of_endsWith ended
      exact isLine.no_comma (by simp)
    constructor
    · rintro ⟨row, mem, trimmed⟩
      obtain ⟨i, hi⟩ := List.mem_iff_getElem?.1 mem
      exact ⟨i, row, hi, trimmed, stays i row hi trimmed⟩
    · rintro ⟨i, row, hi, trimmed, -⟩
      exact ⟨row, List.mem_of_getElem? hi, trimmed⟩
  | @comma above below row hrows ends within terminated bare =>
    have comma_terminated : Terminated (withComma row) := terminated_comma (terminated row (by simp))
    have above_terminated : ∀ other ∈ above ++ [withComma row], Terminated other :=
      terminated_concat (fun other mem => terminated other (List.mem_append_left _ mem))
        comma_terminated
    have rows := rows_put (rows_below hrows) above_terminated
      ((tidy_ofIdentifier word).terminated_row false)
    have regroup : (above ++ [withComma row]).flatten ++
        ((Item.ofIdentifier x).row false ++ below.flatten) = above.flatten ++
          (withComma row ++ ((Item.ofIdentifier x).row false ++ below.flatten)) := by simp
    have no_comma : (withComma row).trimEnd ≠ line := by
      rw [trimEnd_withComma]
      rintro rfl
      exact isLine.no_comma (by simp)
    have around : (∃ other ∈ above ++ [withComma row] ++ below, other.trimEnd = line) ↔
        ∃ other ∈ above ++ below, other.trimEnd = line := by
      simp [no_comma, or_and_right, exists_or]
    rw [regroup] at rows
    rw [← withComma, hasLine_put rows (no_item false), around, hrows]
    constructor
    · rintro ⟨other, mem, trimmed⟩
      obtain ⟨i, hi, elsewhere⟩ := mem_around_iff.1 mem
      exact ⟨i, other, hi, trimmed, by omega⟩
    · rintro ⟨i, other, hi, trimmed, elsewhere⟩
      exact ⟨other, mem_around_iff.2 ⟨i, hi, by omega⟩, trimmed⟩

end Rows

end Index

namespace IndexPatch

variable {patch : IndexPatch} {content new : Text}

/-- The text with the import line, put in if it is lacking. -/
def imported (patch : IndexPatch) (content : Text) : Text :=
  if hasLine content patch.importLine then content else insertImport content patch.importLine

/-- What an addition makes of a text with an export zone. -/
structure Promises (patch : IndexPatch) (content new : Text) : Prop where
  /-- The import line is there, unless it got the comma that a new entry needs above it. -/
  line : hasLine new patch.importLine ↔
    (∃ listed ∈ patch.exportEntry, ∃ row ∈ content.rows,
      (Pattern.entry listed.identifier).Hits row) ∨
    ∃ i row, (patch.imported content).rows[i]? = some row ∧ row.trimEnd = patch.importLine ∧
      ¬ LastOfZone (patch.imported content) i
  /-- The entry stands in the zone, unless it stood outside only. -/
  entry : ∀ listed ∈ patch.exportEntry, (InZone listed.identifier new ↔
    ((∃ row ∈ content.rows, (Pattern.entry listed.identifier).Hits row) →
      InZone listed.identifier content))

theorem hasLine_imported (regular : patch.Regular) (content : Text) :
    hasLine (patch.imported content) patch.importLine := by
  rw [imported]
  split
  · assumption
  · exact hasLine_insertImport regular content

theorem hits_imported (regular : patch.Regular) {x : Text} (word : IsWord x) :
    (∃ row ∈ (patch.imported content).rows, (Pattern.entry x).Hits row) ↔
      ∃ row ∈ content.rows, (Pattern.entry x).Hits row := by
  rw [imported]
  split
  · rfl
  · exact hits_insertImport regular.line word

theorem inZone_imported (regular : patch.Regular) {x : Text} (word : IsWord x) :
    InZone x (patch.imported content) ↔ InZone x content := by
  rw [imported]
  split
  · rfl
  · exact inZone_insertImport regular.line word

theorem apply_eq {listed : ExportEntry} (hentry : patch.exportEntry = some listed) (content : Text) :
    patch.apply content =
      if ((Pattern.entry listed.identifier).split? (patch.imported content)).isSome then
        .ok (patch.imported content)
      else insertExport (patch.imported content) listed := by
  rw [apply, hentry]
  rfl

theorem promises_of_apply (regular : patch.Regular) {x : Text} (word : IsWord x)
    (hentry : patch.exportEntry = some (Index.entry x)) (h : patch.apply content = .ok new) :
    patch.Promises content new := by
  have only : ∀ listed ∈ patch.exportEntry, listed = Index.entry x := by
    simp [hentry, eq_comm]
  have found := regular.isSome_split? hentry (patch.imported content)
  have hits : (∃ row ∈ (patch.imported content).rows, (Pattern.entry x).Hits row) ↔
      ∃ row ∈ content.rows, (Pattern.entry x).Hits row := hits_imported regular word
  have present := hasLine_imported regular content
  rw [entry_identifier] at found
  rw [apply_eq hentry, entry_identifier] at h
  split at h
  · rename_i hit
    obtain rfl := Except.ok.inj h
    have there := hits.1 (found.1 hit)
    refine ⟨iff_of_true present (Or.inl ⟨_, hentry, there⟩), fun listed mem => ?_⟩
    obtain rfl := only listed mem
    rw [entry_identifier, inZone_imported regular word]
    exact ⟨fun inside _ => inside, fun inside => inside there⟩
  · rename_i miss
    have absent : ¬ ∃ row ∈ content.rows, (Pattern.entry x).Hits row := fun there =>
      miss (found.2 (hits.2 there))
    refine ⟨?_, fun listed mem => ?_⟩
    · rw [hasLine_insertExport regular.line word h]
      constructor
      · exact Or.inr
      · rintro (⟨listed, mem, there⟩ | elsewhere)
        · obtain rfl := only listed mem
          exact absurd there absent
        · exact elsewhere
    · obtain rfl := only listed mem
      exact iff_of_true (inZone_of_insertExport word h) fun there => absurd there absent

end IndexPatch

end ComponentForge

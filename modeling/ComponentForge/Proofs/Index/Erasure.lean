import ComponentForge.Proofs.Index.EntryLines
import ComponentForge.Proofs.Index.Imports

/-!
# Entries erased from a zone

In a zone with one entry on each line a removal takes out the first line of the identifier. The first
line, a line in the middle, the last line and the only line of a zone take different ways, which differ
in the comma: only the last line without a comma takes the comma of the line above it along.
-/

namespace ComponentForge.Index

open Text

section Removal

variable {above : List Text} {before after lines : List EntryLine} {line last : EntryLine}
  {trailing : Bool} {entry : ExportEntry} {zone : ExportZone} {content tail marker : Text}

/-- A line loses its comma and the white space after it, and the zone stays where it is. -/
theorem locate?_trimmed (single : '\n' ∉ marker) (terminated : ∀ row ∈ above, Terminated row)
    (located : ExportZone.locate? (above.flatten ++ (last.item.row true ++ tail)) marker = some zone)
    (begins : zone.beginLine ≤ above.length) :
    ExportZone.locate? (above.flatten ++ (last.trimmed.item.row false ++ tail)) marker =
      some zone := by
  have whole : last.item.row true ++ tail =
      (last.indent ++ last.name) ++ ((',' :: last.spaces) ++ (last.ending ++ tail)) := by
    simp [last.row_true]
  have left : last.trimmed.item.row false ++ tail =
      (last.indent ++ last.name) ++ (last.ending ++ tail) := by
    simp [last.row_trimmed]
  rw [whole] at located
  rw [left]
  exact ExportZone.locate?_withoutInline single terminated last.braceless_spaces
    (by simp [last.notMem_spaces]) begins located

/-- What is left of a zone when one of its lines goes: the other lines in their order, of which the
last one may have lost the white space after its comma together with the comma. -/
structure Erased (above : List Text) (trailing : Bool) (tail : Text) (entry : ExportEntry)
    (kept left : List EntryLine) (new : Text) : Prop where
  text : new = (above ++ entryRows trailing left).flatten ++ tail
  trimmed : left.map (·.trimmed) = kept.map (·.trimmed)
  located : ExportZone.locate? new entry.marker =
    some ⟨above.length, above.length + left.length + 1⟩

section Line

variable (single : '\n' ∉ entry.marker) (identifier : IsIdentifier entry.identifier)
  (terminated : ∀ row ∈ above, Terminated row)
  (outside : ∀ row ∈ above, ¬ (Pattern.entry entry.identifier).Hits row)
  (others : ∀ other ∈ before, entry.identifier ≠ other.name) (same : entry.identifier = line.name)

include identifier outside others in
theorem not_hits_before : ∀ row ∈ above ++ before.map (·.item.row true),
    ¬ (Pattern.entry entry.identifier).Hits row :=
  List.forall_mem_append.2 ⟨outside, List.forall_mem_map.2 fun other mem hits =>
    others other mem ((EntryLine.hits_row_iff identifier).1 hits)⟩

include single identifier terminated outside same

/-- The only line of a zone goes alone. -/
theorem erased_of_only (located : ExportZone.locate?
      (above.flatten ++ (line.item.row false ++ tail)) entry.marker =
        some ⟨above.length, above.length + 2⟩) :
    ∃ new, removeExport (above.flatten ++ (line.item.row false ++ tail)) entry = .ok (some new) ∧
      Erased above false tail entry [] [] new := by
  refine ⟨_, removeExport_of_only identifier.oneLine terminated outside line.terminated_row
    ((EntryLine.hits_row_iff identifier).2 same) located, by simp [entryRows, listing], rfl, ?_⟩
  exact ExportZone.locate?_withoutRow single terminated line.terminated_row (line.braceless_row false)
    located le_rfl (by simp)

include others

/-- The line of an entry that has a comma goes alone too. -/
theorem erased_of_comma (comma : (trailing || !after.isEmpty) = true)
    (located : ExportZone.locate? ((above ++ before.map (·.item.row true)).flatten ++
      (line.item.row true ++ ((entryRows trailing after).flatten ++ tail))) entry.marker =
        some ⟨above.length, above.length + (before ++ after).length + 2⟩) :
    ∃ new, removeExport ((above ++ before.map (·.item.row true)).flatten ++
        (line.item.row true ++ ((entryRows trailing after).flatten ++ tail))) entry =
          .ok (some new) ∧ Erased above trailing tail entry (before ++ after) (before ++ after) new := by
  have rows_terminated : ∀ row ∈ above ++ before.map (·.item.row true), Terminated row :=
    terminated_lines terminated
  have regroup : (above ++ entryRows trailing (before ++ after)).flatten ++ tail =
      (above ++ before.map (·.item.row true)).flatten ++
        ((entryRows trailing after).flatten ++ tail) := by
    rw [entryRows_append (by simpa using comma)]
    simp
  refine ⟨_, removeExport_of_comma identifier.oneLine rows_terminated
    (not_hits_before identifier outside others) line.terminated_row
    ((EntryLine.hits_row_iff identifier).2 same) (line.trimEnd_row true), regroup.symm, rfl, ?_⟩
  refine ExportZone.locate?_withoutRow single rows_terminated line.terminated_row
    (line.braceless_row true) located (by simp) ?_
  simp only [List.length_append, List.length_map]
  omega

/-- The last line, which has no comma, goes with the comma of the line above it. -/
theorem erased_of_bare (delimited : entry.commaDelimited) {front : List EntryLine}
    (before_eq : before = front ++ [last])
    (located : ExportZone.locate? ((above ++ before.map (·.item.row true)).flatten ++
      (line.item.row false ++ tail)) entry.marker =
        some ⟨above.length, above.length + before.length + 2⟩) :
    ∃ new, removeExport ((above ++ before.map (·.item.row true)).flatten ++
        (line.item.row false ++ tail)) entry = .ok (some new) ∧
      Erased above false tail entry before (front ++ [last.trimmed]) new := by
  have miss := not_hits_before identifier outside others
  have front_terminated : ∀ row ∈ above ++ front.map (·.item.row true), Terminated row :=
    terminated_lines terminated
  have rows_terminated : ∀ row ∈ above ++ front.map (·.item.row true) ++ [last.item.row true],
      Terminated row := terminated_concat front_terminated last.terminated_row
  have regroup : above ++ before.map (·.item.row true) =
      (above ++ front.map (·.item.row true)) ++ [last.item.row true] := by
    simp [before_eq]
  rw [regroup] at located miss ⊢
  have shorter := ExportZone.locate?_withoutRow single rows_terminated line.terminated_row
    (line.braceless_row false) located (by simp) (by simp [before_eq])
  have number : above.length + before.length + 2 =
      (above ++ front.map (·.item.row true)).length + 3 := by
    simp [before_eq, Nat.add_assoc]
  have new_rows : (above ++ front.map (·.item.row true)) ++ [last.trimmed.item.row false] =
      above ++ entryRows false (front ++ [last.trimmed]) := by
    rw [entryRows_append (Or.inr (by simp)), entryRows_cons]
    simp [entryRows, listing]
  rw [number] at located
  refine ⟨_, removeExport_of_bare identifier.oneLine rows_terminated miss line.terminated_row
    ((EntryLine.hits_row_iff identifier).2 same) (line.trimEnd_row false) (last.commaEnded_row true)
    delimited (by simp) located, ?_, by simp [before_eq, EntryLine.trimmed], ?_⟩
  · rw [last.withoutComma_row, new_rows]
  · rw [List.flatten_append, List.flatten_singleton, List.append_assoc] at shorter
    have trimmed := locate?_trimmed single front_terminated shorter (by simp)
    rw [last.withoutComma_row, List.flatten_append, List.flatten_singleton, List.append_assoc, trimmed]
    simp [before_eq]

/-- The line of an entry is taken out of its zone. -/
theorem exists_erased (delimited : entry.commaDelimited)
    (located : ExportZone.locate?
      ((above ++ entryRows trailing (before ++ line :: after)).flatten ++ tail) entry.marker =
        some ⟨above.length, above.length + (before ++ line :: after).length + 1⟩) :
    ∃ new left,
      removeExport ((above ++ entryRows trailing (before ++ line :: after)).flatten ++ tail) entry =
        .ok (some new) ∧ Erased above trailing tail entry (before ++ after) left new := by
  have count : above.length + (before ++ line :: after).length + 1 =
      above.length + (before ++ after).length + 2 := by
    simp
    omega
  rw [flatten_around_line, count] at located
  rw [flatten_around_line]
  by_cases comma : (trailing || !after.isEmpty) = true
  · rw [comma] at located ⊢
    obtain ⟨new, removed, erased⟩ := erased_of_comma single identifier terminated outside others same
      comma located
    exact ⟨new, _, removed, erased⟩
  · obtain ⟨rfl, rfl⟩ : trailing = false ∧ after = [] := by simpa using comma
    simp only [List.isEmpty_nil, Bool.not_true, Bool.or_false, entryRows, List.map_nil, listing,
      List.flatten_nil, List.nil_append, List.append_nil] at located ⊢
    rcases List.eq_nil_or_concat before with rfl | ⟨front, last, before_eq⟩
    · simp only [List.map_nil, List.append_nil] at located ⊢
      obtain ⟨new, removed, erased⟩ := erased_of_only single identifier terminated outside same located
      exact ⟨new, _, removed, erased⟩
    · obtain ⟨new, removed, erased⟩ := erased_of_bare single identifier terminated outside others same
        delimited (before_eq.trans List.concat_eq_append) located
      exact ⟨new, _, removed, erased⟩

end Line

end Removal

section Zone

variable {content : Text} {entry : ExportEntry} {zone : ExportZone} {trailing : Bool}
  {lines : List EntryLine}

/-- A zone of entry lines and the text around it. -/
theorem text_of_inner (located : ExportZone.locate? content entry.marker = some zone)
    (inner : zone.inner content = entryRows trailing lines) :
    content = (zone.above content ++ entryRows trailing lines).flatten ++
        (zone.below content).flatten ∧
      zone = ⟨(zone.above content).length, (zone.above content).length + lines.length + 1⟩ ∧
      (∀ row ∈ zone.above content, Terminated row) ∧
      Text.rows (zone.below content).flatten = zone.below content := by
  obtain ⟨rows, begins, ends, below⟩ := ExportZone.rows_eq located
  rw [inner] at rows
  rw [inner, length_entryRows] at ends
  refine ⟨flatten_of_rows_eq rows, ?_, fun row mem => ?_, rows_flatten_of_rows_eq rows⟩
  · rw [begins, ends]
  · exact terminated_of_rows_eq rows below row (List.mem_append_left _ mem)

/-- A removal takes the first line of the identifier out of a zone that has one entry on each line.
The other lines keep their order, their indentation and their line breaks, there is a comma after the
last one if there was one after the last one before, and nothing outside the zone changes. An
identifier without a line is not removed. -/
theorem removeExport_erases (single : '\n' ∉ entry.marker) (delimited : entry.commaDelimited)
    (identifier : IsIdentifier entry.identifier)
    (located : ExportZone.locate? content entry.marker = some zone)
    (inner : zone.inner content = entryRows trailing lines)
    (outside : ∀ row ∈ zone.above content ++ zone.below content,
      ¬ (Pattern.entry entry.identifier).Hits row) :
    (entry.identifier ∈ lines.map (·.name) → ∃ new left,
      removeExport content entry = .ok (some new) ∧
      ExportZone.locate? new entry.marker = some ⟨zone.beginLine, zone.endLine - 1⟩ ∧
      new.rows = zone.above content ++ entryRows trailing left ++ zone.below content ∧
      left.map (·.name) = (lines.map (·.name)).erase entry.identifier ∧
      left.map (·.trimmed) = (lines.eraseP (·.name == entry.identifier)).map (·.trimmed)) ∧
    (entry.identifier ∉ lines.map (·.name) → removeExport content entry = .ok none) := by
  obtain ⟨text, lines_eq, terminated, rows_below⟩ := text_of_inner located inner
  generalize zone.above content = above at *
  generalize zone.below content = below at *
  constructor
  · intro listed
    obtain ⟨listed_line, mem, name_eq⟩ := List.mem_map.1 listed
    obtain ⟨line, before, after, others, same, rfl, erased⟩ :=
      List.exists_of_eraseP (p := (·.name == entry.identifier)) mem (by simpa using name_eq)
    rw [text, lines_eq] at located
    obtain ⟨new, left, removed, result⟩ := exists_erased single identifier terminated
      (fun row mem => outside row (List.mem_append_left _ mem))
      (fun other mem same => others other mem (by simp [same])) (beq_iff_eq.1 same).symm
      delimited located
    have names := congrArg (List.map (·.name)) result.trimmed
    have count := congrArg List.length result.trimmed
    simp only [List.map_map, Function.comp_def, EntryLine.trimmed_name] at names
    simp only [List.length_map, List.length_append] at count
    refine ⟨new, left, text ▸ removed, ?_, ?_, ?_, erased ▸ result.trimmed⟩
    · rw [result.located, lines_eq]
      simp [count]
      omega
    · rw [result.text, rows_append (List.forall_mem_append.2 ⟨terminated, terminated_entryRows⟩), rows_below]
    · have first : line.name ∉ before.map (·.name) := by
        rintro mem
        obtain ⟨other, mem, same'⟩ := List.mem_map.1 mem
        exact others other mem (by rw [same', same])
      rw [names, ← beq_iff_eq.1 same, List.map_append, List.map_append, List.map_cons,
        erase_append_cons first]
  · intro unlisted
    have miss : ∀ row ∈ content.rows, ¬ (Pattern.entry entry.identifier).Hits row := by
      rw [text, rows_append (List.forall_mem_append.2 ⟨terminated, terminated_entryRows⟩), rows_below]
      intro row mem
      rcases List.mem_append.1 mem with mem | mem
      · rcases List.mem_append.1 mem with mem | mem
        · exact outside row (List.mem_append_left _ mem)
        · obtain ⟨line, hline, comma, rfl⟩ := mem_entryRows mem
          rw [EntryLine.hits_row_iff identifier]
          exact fun same => unlisted (List.mem_map.2 ⟨line, hline, same.symm⟩)
      · exact outside row (List.mem_append_right _ mem)
    rw [removeExport, identifier.oneLine.split?_eq_none miss]

end Zone

/-- Three entries, of which the second has white space behind its comma. -/
def windowsList : Text :=
  "const A = 1;\r\nmodule.exports = \x7b\r\n  A,\r\n\tB, \r\n  Post\r\n\x7d;\r\n".toList

def windowsLines : List EntryLine :=
  [⟨[' ', ' '], ['A'], [], true, List.all_eq_true.1 rfl, by decide, EntryLine.nil_spaces⟩,
    ⟨['\t'], ['B'], [' '], true, List.all_eq_true.1 rfl, by decide, List.all_eq_true.1 rfl⟩,
    ⟨[' ', ' '], "Post".toList, [], true, List.all_eq_true.1 rfl, by decide, EntryLine.nil_spaces⟩]

def postExport : ExportEntry :=
  ⟨"module.exports = \x7b".toList, "Post".toList, true⟩

theorem removeExport_erases_windowsList : ∃ new left,
    removeExport windowsList postExport = .ok (some new) ∧
    ExportZone.locate? new postExport.marker = some ⟨2, 5⟩ ∧
    new.rows = ExportZone.above ⟨2, 6⟩ windowsList ++ entryRows false left ++
      ExportZone.below ⟨2, 6⟩ windowsList ∧
    left.map (·.name) = [['A'], ['B']] ∧
    left.map (·.trimmed) = (windowsLines.take 2).map (·.trimmed) := by
  have located : ExportZone.locate? windowsList postExport.marker = some ⟨2, 6⟩ := by decide +kernel
  have inner : ExportZone.inner ⟨2, 6⟩ windowsList = entryRows false windowsLines := by
    decide +kernel
  exact (removeExport_erases (by decide) rfl (by decide) located inner (by decide +kernel)).1
    (by decide)

end ComponentForge.Index

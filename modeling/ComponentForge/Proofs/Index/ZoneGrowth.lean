import ComponentForge.Proofs.Index.ZoneRows

/-!
# A zone that grows by an entry

An entry that is put into a zone is one new row in front of the closing one. The rows of the text
stay, except for a comma that the row above may need, and the zone of the marker is found on the same
line and closes one line later.
-/

namespace ComponentForge.Index

open Text

section Growth

variable {content : Text} {entry : ExportEntry} {zone : ExportZone} {above redone below : List Text}
  {comma : Bool}

theorem row_ofIdentifier (entry : ExportEntry) (comma : Bool) :
    (Item.ofIdentifier entry.identifier).row comma =
      terminate (entryLine entry ++ if comma then [','] else []) := by
  cases comma <;> simp [Item.row, Item.ofIdentifier, terminate, entryLine]

theorem terminated_ofIdentifier (oneLine : '\n' ∉ entry.identifier) (comma : Bool) :
    Terminated ((Item.ofIdentifier entry.identifier).row comma) := by
  rw [row_ofIdentifier]
  apply terminated_terminate
  cases comma <;> simp [entryLine, oneLine]

theorem MakesRoom.length_eq (room : MakesRoom entry zone above redone comma) :
    redone.length = above.length := by
  cases room <;> simp

theorem MakesRoom.terminated (room : MakesRoom entry zone above redone comma)
    (terminated : ∀ row ∈ above, Terminated row) : ∀ row ∈ redone, Terminated row := by
  cases room with
  | plain => exact terminated
  | trailing => exact terminated
  | @comma front last _ _ _ _ _ parts =>
    rw [← parts.withComma_eq]
    exact terminated_concat (fun row mem => terminated row (List.mem_append_left _ mem))
      (terminated_comma (terminated last (by simp)))

/-- The comma does not move the zone. -/
theorem MakesRoom.located (room : MakesRoom entry zone above redone comma)
    (single : '\n' ∉ entry.marker) (rows : content.rows = above ++ below)
    (length : above.length + 1 = zone.endLine) (terminated : ∀ row ∈ above, Terminated row)
    (located : ExportZone.locate? content entry.marker = some zone) :
    ExportZone.locate? (redone.flatten ++ below.flatten) entry.marker = some zone := by
  cases room with
  | plain => rwa [flatten_of_rows_eq rows] at located
  | trailing => rwa [flatten_of_rows_eq rows] at located
  | @comma front last _ _ _ inner _ parts =>
    have begin_lt := (ExportZone.lines_of_locate? located).2.1
    have more : zone.endLine ≠ zone.beginLine + 1 := by
      simpa [ExportZone.isEmpty] using inner
    rw [List.append_assoc] at rows
    rw [List.length_append, List.length_singleton] at length
    have kept := locate?_comma single located rows terminated (by omega)
    rw [parts.trimEnd_eq, parts.splitBreak_eq] at kept
    simpa using kept

/-- What an entry makes of a text and its zone. -/
structure Grown (entry : ExportEntry) (zone : ExportZone) (content new : Text) : Prop where
  rows : ∃ above redone comma below, content.rows = above ++ below ∧ above.length + 1 = zone.endLine ∧
    MakesRoom entry zone above redone comma ∧
    new.rows = redone ++ terminate (entryLine entry ++ if comma then [','] else []) :: below
  longer : new.rows.length = content.rows.length + 1
  located : ExportZone.locate? new entry.marker = some ⟨zone.beginLine, zone.endLine + 1⟩

theorem grown_of_makesRoom (single : '\n' ∉ entry.marker) (braceless : Braceless entry.identifier)
    (oneLine : '\n' ∉ entry.identifier) (rows : content.rows = above ++ below)
    (length : above.length + 1 = zone.endLine) (terminated : ∀ row ∈ above, Terminated row)
    (room : MakesRoom entry zone above redone comma)
    (located : ExportZone.locate? content entry.marker = some zone) :
    Grown entry zone content
      (redone.flatten ++ ((Item.ofIdentifier entry.identifier).row comma ++ below.flatten)) := by
  have new_rows := rows_put (rows_flatten_of_rows_eq rows) (room.terminated terminated)
    (terminated_ofIdentifier oneLine comma)
  have begin_lt := (ExportZone.lines_of_locate? located).2.1
  have same := room.length_eq
  refine ⟨⟨above, redone, comma, below, rows, length, room, ?_⟩, ?_, ?_⟩
  · rw [new_rows, row_ofIdentifier]
  · rw [new_rows, rows, List.length_append, List.length_append, List.length_cons, same, Nat.add_assoc]
  · exact ExportZone.locate?_withRow single (room.terminated terminated)
      (terminated_ofIdentifier oneLine comma) (braceless_itemRow braceless comma)
      (room.located single rows length terminated located) (by omega) (by omega)

/-- An insertion fails exactly if there is no zone for the entry, and then it gives no text to replace
the old one. Else the line of the entry is the new last line inside the zone, every other line stays,
except for a comma in place of the white space at the end of the line above, and the zone closes one
line later. -/
theorem insertExport_grows (content : Text) (single : '\n' ∉ entry.marker)
    (braceless : Braceless entry.identifier) (oneLine : '\n' ∉ entry.identifier) :
    (∀ fault, insertExport content entry = .error fault ↔
      ExportZone.locate? content entry.marker = none ∧ fault = .unlocatable entry.marker) ∧
    ∀ zone, ExportZone.locate? content entry.marker = some zone →
      ∃ new, insertExport content entry = .ok new ∧ Grown entry zone content new := by
  refine ⟨fun fault => insertExport_error_iff, fun zone located => ?_⟩
  obtain ⟨above, redone, comma, below, rows, length, terminated, room, inserted⟩ :=
    insertExport_rows located
  rw [List.flatten_append, List.flatten_singleton, List.append_assoc] at inserted
  exact ⟨_, inserted, grown_of_makesRoom single braceless oneLine rows length terminated room located⟩

/-- A zone with a nested brace, white space at its ends of lines and no line break after it. -/
def nestedList : Text :=
  "import A from 'a';\r\nmodule.exports = \x7b\r\n  A: \x7b\x7d,\r\n  B \t\r\n\x7d".toList

def homeExport : ExportEntry :=
  ⟨"module.exports = \x7b".toList, "Home".toList, true⟩

theorem insertExport_grows_nestedList : ∃ new, insertExport nestedList homeExport = .ok new ∧
    Grown homeExport ⟨2, 5⟩ nestedList new :=
  (insertExport_grows nestedList (by decide) ⟨by decide, by decide⟩ (by decide)).2 ⟨2, 5⟩ (by decide +kernel)

end Growth

end ComponentForge.Index

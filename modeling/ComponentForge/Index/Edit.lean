import ComponentForge.Index.Zone
import ComponentForge.Text.Blank
import ComponentForge.Text.Rows

/-!
# Edits of an index file

An index file gathers the imports of a module and lists them again in one export zone. Edits work
on the text and keep the style that they find: a zone whose last entry has a comma keeps a comma
after its last entry, any other zone keeps none.
-/

namespace ComponentForge

structure ExportEntry where
  /-- The text that opens the zone, with its brace. -/
  marker : Text
  identifier : Text
  /-- Entries of the zone are separated by commas. -/
  commaDelimited : Bool
deriving DecidableEq, Repr

/-- Why an edit is refused. -/
inductive EditFault where
  | unlocatable (marker : Text)
  /-- A line number beyond the lines of the text. -/
  | outsideText
deriving DecidableEq, Repr

namespace Index

def hasLine (content line : Text) : Bool :=
  content.lines.any (·.trimEnd == line)

/-- The word import and then white space begin the row. -/
def isImport (row : Text) : Bool :=
  match row.after? "import".toList with
  | some (c :: _) => isBlank c
  | _ => false

/-- Number of rows up to the last import statement. -/
def importRows : List Text → Nat
  | [] => 0
  | row :: more =>
    match importRows more with
    | 0 => if isImport row then 1 else 0
    | n + 1 => n + 2

/-- Put an import line after the last import statement, or on top if there is none. -/
def insertImport (content line : Text) : Text :=
  content.insertLine (importRows content.rows) line

def entryLine (entry : ExportEntry) : Text :=
  ' ' :: ' ' :: entry.identifier

/-- Put an entry just before the closing line of its zone. The entry above it gets the comma that
now has to follow it, or hands on the trailing comma that it already has. -/
def insertExport (content : Text) (entry : ExportEntry) : Except EditFault Text :=
  match ExportZone.locate? content entry.marker with
  | none => .error (.unlocatable entry.marker)
  | some zone =>
    let line := entryLine entry
    if zone.isEmpty || !entry.commaDelimited then
      .ok (content.insertLine (zone.endLine - 1) line)
    else
      match content.rows[zone.endLine - 2]? with
      | none => .error .outsideText
      | some last =>
        let (body, ending) := last.splitBreak
        let body := body.trimEnd
        if body.endsWith ',' then .ok (content.insertLine (zone.endLine - 1) (line ++ [',']))
        else
          let rows := content.rows.set (zone.endLine - 2) (body ++ ',' :: ending)
          .ok (Text.insertLine rows.flatten (zone.endLine - 1) line)

/-- Remove the line that holds the place between the two texts. Of a last line without a line feed
the line feed before it goes too. -/
def removeLineAt (before after : Text) : Text :=
  let kept := (before.splitEnd (· != '\n')).1
  match after.cut? ['\n'] with
  | some (_, below) => kept ++ below
  | none => kept.dropLast

/-- Remove the line on which `pattern` first matches, if it does. -/
def removeLine? (content : Text) (pattern : Pattern) : Option Text :=
  (pattern.split? content).map fun (before, after) => removeLineAt before after

/-- The text without that line, or as it is if the pattern does not match. -/
def withoutLine (content : Text) (pattern : Pattern) : Text :=
  (removeLine? content pattern).getD content

/-- Remove an entry, if it is listed. When the last entry of a zone without trailing commas goes,
the entry above it becomes the last one and loses its comma. -/
def removeExport (content : Text) (entry : ExportEntry) : Except EditFault (Option Text) :=
  match (Pattern.entry entry.identifier).split? content with
  | none => .ok none
  | some (before, after) =>
    let number := (Position.after before).line
    let hadComma := match content.lines[number - 1]? with
      | some line => line.trimEnd.endsWith ','
      | none => false
    let shorter := removeLineAt before after
    let closesZone := match ExportZone.locate? content entry.marker with
      | some zone => zone.endLine == number + 1 && zone.beginLine + 1 < number
      | none => false
    if closesZone && entry.commaDelimited && !hadComma then
      match shorter.rows[number - 2]? with
      | none => .error .outsideText
      | some last =>
        let (body, ending) := last.splitBreak
        let body := body.trimEnd
        if body.endsWith ',' then
          .ok (some (shorter.rows.set (number - 2) (body.dropLast ++ ending)).flatten)
        else .ok (some shorter)
    else .ok (some shorter)

end Index

/-- An import line and, unless the module is imported only for its effects, an export entry. -/
structure IndexPatch where
  importLine : Text
  exportEntry : Option ExportEntry
deriving DecidableEq, Repr

namespace IndexPatch

/-- Add what the text lacks of the patch. -/
def apply (patch : IndexPatch) (content : Text) : Except EditFault Text :=
  let content :=
    if Index.hasLine content patch.importLine then content
    else Index.insertImport content patch.importLine
  match patch.exportEntry with
  | none => .ok content
  | some entry =>
    if ((Pattern.entry entry.identifier).split? content).isSome then .ok content
    else Index.insertExport content entry

/-- Remove what the text has of the patch; `none` if it has nothing of it. -/
def revert? (patch : IndexPatch) (content : Text) : Except EditFault (Option Text) :=
  let shorter := Index.removeLine? content (.literal patch.importLine)
  match patch.exportEntry with
  | none => .ok shorter
  | some entry => do
    let shortest ← Index.removeExport (shorter.getD content) entry
    return shortest.or shorter

end IndexPatch

end ComponentForge

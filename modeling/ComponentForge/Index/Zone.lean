import ComponentForge.Pattern

/-!
# Export zones

The zone of an index file that lists its exports opens with a marker that contains an opening brace
and closes with the partner of that brace. Braces pair by counting alone: one inside a string or a
comment counts like any other.
-/

namespace ComponentForge

/-- The text before the closing brace that leaves `depth` further braces open to its left. -/
def insideBraces? (depth : Nat) : Text → Option Text
  | [] => none
  | c :: rest =>
    if c = '{' then (insideBraces? (depth + 1) rest).map (c :: ·)
    else if c = '}' then
      match depth with
      | 0 => some []
      | depth + 1 => (insideBraces? depth rest).map (c :: ·)
    else (insideBraces? depth rest).map (c :: ·)

/-- Position of the partner of the opening brace at `opening`. -/
def matchBrace? (text : Text) (opening : Position) : Option Position := do
  let offset ← opening.offset? text
  let (before, rest) ← text.splitAtByte? offset
  match rest with
  | [] => none
  | c :: rest =>
    if c = '{' then
      let inside ← insideBraces? 0 rest
      return .after (before ++ c :: inside)
    else none

/-- The line of the marker and the line of the closing brace, counted from one. -/
structure ExportZone where
  beginLine : Nat
  endLine : Nat
deriving DecidableEq, Repr

namespace ExportZone

/-- No line lies between the marker and the closing brace. -/
def isEmpty (zone : ExportZone) : Bool :=
  zone.endLine == zone.beginLine + 1

/-- The zone that the first occurrence of `marker` opens. A zone that closes on the line of its
marker has no line to insert before and is not found. -/
def locate? (text marker : Text) : Option ExportZone := do
  let (opening, _) ← marker.splitBefore? ['{']
  let (before, rest) ← text.splitBefore? marker
  let inside ← insideBraces? 0 (rest.drop (opening.length + 1))
  let beginLine := (Position.after before).line
  let endLine := (Position.after (before ++ opening ++ '{' :: inside)).line
  if beginLine < endLine then some ⟨beginLine, endLine⟩ else none

end ExportZone

end ComponentForge

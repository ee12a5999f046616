import ComponentForge.Proofs.Index.Framing

/-!
# What insertions keep

In any text an insertion redoes a row at most by its line feed or by a comma, and it puts one new row
in. So what was listed stays listed, and where no import statement stands in the export zone none gets
there.
-/

namespace ComponentForge.Index

open Text

/-- No row from the marker to the closing brace is an import statement. -/
def ImportFree (content : Text) : Prop :=
  ∀ zone, ExportZone.locate? content exportMarker = some zone →
    ∀ row ∈ (content.rows.take zone.endLine).drop (zone.beginLine - 1), isImport row = false

/-- What an insertion makes of a row. -/
inductive Redone (row : Text) : Text → Prop
  | same : Redone row row
  | broken : Redone row (row ++ ['\n'])
  | comma : Terminated row → isImport row = false → row.splitBreak.1.trimEnd.endsWith ',' = false →
    Redone row (row.splitBreak.1.trimEnd ++ ',' :: row.splitBreak.2)

/-- Every row is still there, if redone. -/
def Carries (content new : Text) : Prop :=
  ∀ row ∈ content.rows, ∃ row' ∈ new.rows, Redone row row'

/-- What becomes of a text when an entry is put in: the new row is the last one of the zone, and the
row above it gets a comma if it is a row of the zone that has none. -/
inductive Entered (x : Text) (zone : ExportZone) (content : Text) : Text → Prop
  | plain {above below : List Text} {comma : Bool} : content.rows = above ++ below →
    above.length + 1 = zone.endLine → (∀ row ∈ above, Terminated row) →
    (zone.beginLine < above.length → ∀ row ∈ above.getLast?,
      row.splitBreak.1.trimEnd.endsWith ',') →
    Entered x zone content
      (above.flatten ++ ((Item.ofIdentifier x).row comma ++ below.flatten))
  | comma {above below : List Text} {row : Text} : content.rows = above ++ row :: below →
    above.length + 2 = zone.endLine → zone.beginLine ≤ above.length →
    (∀ other ∈ above ++ [row], Terminated other) →
    row.splitBreak.1.trimEnd.endsWith ',' = false →
    Entered x zone content (above.flatten ++
      ((row.splitBreak.1.trimEnd ++ ',' :: row.splitBreak.2) ++
        ((Item.ofIdentifier x).row false ++ below.flatten)))

section Rows

variable {content new line x row : Text} {zone : ExportZone}

theorem terminated_of_below {front below : List Text} {row : Text}
    (h : content.rows = front ++ row :: below) (hbelow : below ≠ []) :
    ∀ other ∈ front ++ [row], Terminated other := by
  have regroup : content.rows = (front ++ [row]) ++ below := by simp [h]
  exact terminated_of_rows_eq regroup hbelow

/-- An entry is put just above the closing line of the zone. -/
theorem entered_of_insertExport (h : insertExport content (entry x) = .ok new) :
    ∃ zone, ExportZone.locate? content exportMarker = some zone ∧ Entered x zone content new := by
  obtain ⟨zone, located⟩ := exists_zone_of_insertExport h
  refine ⟨zone, located, ?_⟩
  obtain ⟨begin_pos, begin_lt, -⟩ := ExportZone.lines_of_locate? located
  obtain ⟨above, redone, comma, below, rows, length, terminated, room, inserted⟩ :=
    insertExport_rows located
  rw [inserted] at h
  obtain rfl := Except.ok.inj h
  rw [List.flatten_append, List.flatten_singleton, List.append_assoc]
  cases room with
  | plain empty =>
    have closes : zone.endLine = zone.beginLine + 1 := by
      simpa [ExportZone.isEmpty, entry] using empty
    exact .plain rows length terminated fun within => by omega
  | @trailing front last body blanks ending inner delimited parts ended =>
    refine .plain rows length terminated fun _ row mem => ?_
    obtain rfl : last = row := by simpa using mem
    rw [parts.trimEnd_eq, ended]
  | @comma front last body blanks ending inner delimited parts bare =>
    have more : zone.endLine ≠ zone.beginLine + 1 := by
      simpa [ExportZone.isEmpty] using inner
    rw [List.append_assoc] at rows
    rw [List.length_append, List.length_singleton] at length
    have entered := Entered.comma (x := x) rows length (by omega) terminated
      (by rw [parts.trimEnd_eq, bare])
    rw [parts.trimEnd_eq, parts.splitBreak_eq] at entered
    simpa using entered

end Rows

section Entry

variable {x row lead rest : Text}

/-- What closes an entry in a line. -/
structure Closing (rest : Text) (comma spaces returns : Text) : Prop where
  whole : rest = comma ++ (spaces ++ returns)
  comma : comma = [] ∨ comma = [',']
  spaces : ∀ c ∈ spaces, Pattern.isSpaceOrTab c
  returns : returns = [] ∨ returns = ['\r']

theorem exists_skip (c : Char) (text : Text) :
    ∃ lead, (lead = [] ∨ lead = [c]) ∧ text = lead ++ Pattern.skip c text := by
  cases text with
  | nil => exact ⟨[], Or.inl rfl, rfl⟩
  | cons d rest =>
    by_cases same : d = c
    · exact ⟨[c], Or.inr rfl, by simp [Pattern.skip, same]⟩
    · exact ⟨[], Or.inl rfl, by simp [Pattern.skip, same]⟩

theorem closing_of_closesEntry (hline : '\n' ∉ rest) (h : Pattern.closesEntry rest) :
    ∃ comma spaces returns, Closing rest comma spaces returns := by
  obtain ⟨comma, hcomma, whole⟩ := exists_skip ',' rest
  obtain ⟨returns, hreturns, below⟩ :=
    exists_skip '\r' ((Pattern.skip ',' rest).dropWhile Pattern.isSpaceOrTab)
  have split := List.takeWhile_append_dropWhile (p := Pattern.isSpaceOrTab) (l := Pattern.skip ',' rest)
  have ended : Pattern.skip '\r' ((Pattern.skip ',' rest).dropWhile Pattern.isSpaceOrTab) = [] := by
    rw [Pattern.closesEntry] at h
    cases hskip : Pattern.skip '\r' ((Pattern.skip ',' rest).dropWhile Pattern.isSpaceOrTab) with
    | nil => rfl
    | cons c more =>
      rw [hskip] at h below
      obtain rfl : c = '\n' := by simpa [Pattern.atLineEnd] using h
      rw [← split, below] at whole
      exact absurd (by rw [whole]; simp) hline
  rw [ended, List.append_nil] at below
  rw [below] at split
  exact ⟨comma, _, returns, by rw [split]; exact whole, hcomma,
    fun c hc => List.mem_takeWhile_imp hc, hreturns⟩

theorem closesEntry_of_closing {comma spaces returns : Text} (h : Closing rest comma spaces returns) :
    Pattern.closesEntry rest := by
  obtain ⟨rfl, hcomma, hspaces, hreturns⟩ := h
  have below : (spaces ++ returns).dropWhile Pattern.isSpaceOrTab = returns := by
    rw [List.dropWhile_append_of_pos hspaces]
    rcases hreturns with rfl | rfl <;> rfl
  have skipped : Pattern.skip ',' (comma ++ (spaces ++ returns)) = spaces ++ returns := by
    rcases hcomma with rfl | rfl
    · cases spaces with
      | nil => rcases hreturns with rfl | rfl <;> rfl
      | cons c more =>
        have hc : c ≠ ',' := by
          rintro rfl
          exact absurd (hspaces ',' List.mem_cons_self) (by decide)
        simp [Pattern.skip, hc]
    · rfl
  rw [Pattern.closesEntry, skipped, below]
  rcases hreturns with rfl | rfl <;> rfl

/-- An entry row holds the identifier after white space. -/
theorem opensEntry_iff {text : Text} : Pattern.opensEntry x text ↔
    ∃ lead rest, text = lead ++ (x ++ rest) ∧ (∀ c ∈ lead, Pattern.isSpaceOrTab c) ∧
      Pattern.closesEntry rest := by
  have here : ∀ text, ((text.after? x).map Pattern.closesEntry).getD false = true ↔
      ∃ rest, text = x ++ rest ∧ Pattern.closesEntry rest := by
    intro text
    cases found : text.after? x with
    | none =>
      simp only [Option.map_none, Option.getD_none, Bool.false_eq_true, false_iff, not_exists, not_and]
      intro rest whole
      rw [after?_eq_some_iff.2 whole] at found
      cases found
    | some rest =>
      rw [after?_eq_some_iff] at found
      subst found
      simp
  induction text with
  | nil =>
    rw [Pattern.opensEntry, Bool.or_false, here]
    constructor
    · rintro ⟨rest, whole, closes⟩
      exact ⟨[], rest, whole, by simp, closes⟩
    · rintro ⟨lead, rest, whole, -, closes⟩
      exact ⟨rest, by simp_all, closes⟩
  | cons c text ih =>
    rw [Pattern.opensEntry, Bool.or_eq_true, Bool.and_eq_true, here]
    constructor
    · rintro (⟨rest, whole, closes⟩ | ⟨hc, further⟩)
      · exact ⟨[], rest, whole, by simp, closes⟩
      · obtain ⟨lead, rest, rfl, spaces, closes⟩ := ih.1 further
        refine ⟨c :: lead, rest, rfl, ?_, closes⟩
        simpa using ⟨hc, spaces⟩
    · rintro ⟨lead, rest, whole, spaces, closes⟩
      cases lead with
      | nil => exact Or.inl ⟨rest, whole, closes⟩
      | cons d lead =>
        obtain ⟨rfl, rfl⟩ := List.cons.inj whole
        exact Or.inr ⟨spaces c List.mem_cons_self, ih.2 ⟨lead, rest, rfl,
          fun e he => spaces e (List.mem_cons_of_mem c he), closes⟩⟩

/-- What stands around the identifier of an entry row that ends with a line feed. -/
structure EntryParts (x row lead comma returns : Text) : Prop where
  body : row.splitBreak.1.trimEnd = lead ++ (x ++ comma)
  ending : row.splitBreak.2 = returns ++ ['\n']
  lead : ∀ c ∈ lead, Pattern.isSpaceOrTab c
  comma : comma = [] ∨ comma = [',']
  returns : returns = [] ∨ returns = ['\r']

theorem last_of_comma (word : IsWord x) {comma : Text} (hcomma : comma = [] ∨ comma = [',']) {c : Char}
    (hc : c ∈ (lead ++ (x ++ comma)).getLast?) : isBlank c = false := by
  have tail_ne : x ++ comma ≠ [] := by simp [word.ne_nil]
  rw [List.getLast?_append_of_ne_nil _ tail_ne] at hc
  rcases hcomma with rfl | rfl
  · rw [List.append_nil] at hc
    exact word.nonblank (List.mem_of_getLast? hc)
  · obtain rfl : ',' = c := by simpa using hc
    rfl

theorem entryParts_of_hits (word : IsWord x) (terminated : Terminated row)
    (hit : (Pattern.entry x).Hits row) : ∃ lead comma returns, EntryParts x row lead comma returns := by
  obtain ⟨body, hbody, rfl⟩ := terminated
  rw [(oneLine_entry word).hits_terminated] at hit
  obtain ⟨lead, rest, rfl, spaces, closes⟩ := opensEntry_iff.1 hit
  have hrest : '\n' ∉ rest := fun h => hbody (by simp [h])
  obtain ⟨comma, gap, returns, rfl, hcomma, hgap, hreturns⟩ := closing_of_closesEntry hrest closes
  have blank : ∀ c ∈ gap, isBlank c := fun c hc => isBlank_of_isSpaceOrTab (hgap c hc)
  have regroup : lead ++ (x ++ (comma ++ (gap ++ returns))) ++ ['\n'] =
      (lead ++ (x ++ comma) ++ gap) ++ (returns ++ ['\n']) := by simp
  have split : splitBreak (lead ++ (x ++ (comma ++ (gap ++ returns))) ++ ['\n']) =
      (lead ++ (x ++ comma) ++ gap, returns ++ ['\n']) := by
    rw [regroup]
    refine splitBreak_append (fun c hc => ?_) (fun c hc => ?_)
    · by_cases empty : gap = []
      · rw [empty, List.append_nil] at hc
        have nonblank := last_of_comma word hcomma hc
        constructor <;> rintro rfl
        · simp [isBlank_lineFeed] at nonblank
        · simp [isBlank_carriageReturn] at nonblank
      · rw [List.getLast?_append_of_ne_nil _ empty] at hc
        have space := hgap c (List.mem_of_getLast? hc)
        constructor <;> rintro rfl <;> exact absurd space (by decide)
    · rcases List.mem_append.1 hc with hc | hc
      · rcases hreturns with rfl | rfl
        · simp at hc
        · exact Or.inr (List.mem_singleton.1 hc)
      · exact Or.inl (List.mem_singleton.1 hc)
  refine ⟨lead, comma, returns, ?_, by rw [split], spaces, hcomma, hreturns⟩
  rw [split]
  exact trimEnd_append_of_last (fun c hc => last_of_comma word hcomma hc) blank

theorem hits_of_parts (word : IsWord x) {comma returns : Text}
    (spaces : ∀ c ∈ lead, Pattern.isSpaceOrTab c) (hcomma : comma = [] ∨ comma = [','])
    (hreturns : returns = [] ∨ returns = ['\r']) :
    (Pattern.entry x).Hits (lead ++ (x ++ comma) ++ (returns ++ ['\n'])) := by
  have regroup : lead ++ (x ++ comma) ++ (returns ++ ['\n']) =
      lead ++ (x ++ (comma ++ ([] ++ returns))) ++ ['\n'] := by simp
  rw [regroup, (oneLine_entry word).hits_terminated]
  exact opensEntry_iff.2 ⟨lead, _, rfl, spaces,
    closesEntry_of_closing ⟨rfl, hcomma, by simp, hreturns⟩⟩

/-- An entry row that gets a comma is still an entry row. -/
theorem hits_comma (word : IsWord x) (terminated : Terminated row)
    (bare : row.splitBreak.1.trimEnd.endsWith ',' = false) (hit : (Pattern.entry x).Hits row) :
    (Pattern.entry x).Hits (row.splitBreak.1.trimEnd ++ ',' :: row.splitBreak.2) := by
  obtain ⟨lead, comma, returns, parts⟩ := entryParts_of_hits word terminated hit
  have body := parts.body
  rcases parts.comma with rfl | rfl
  · have regroup : lead ++ (x ++ []) ++ ',' :: (returns ++ ['\n']) =
        lead ++ (x ++ [',']) ++ (returns ++ ['\n']) := by simp
    rw [body, parts.ending, regroup]
    exact hits_of_parts word parts.lead (Or.inr rfl) parts.returns
  · rw [body, ← List.append_assoc, endsWith_comma] at bare
    cases bare

end Entry

section Zones

variable {content new line x row : Text} {zone : ExportZone} {above below : List Text}

theorem importFree_iff : ImportFree content ↔
    ∀ zone, ExportZone.locate? content exportMarker = some zone →
      ∀ i row, content.rows[i]? = some row → zone.beginLine ≤ i + 1 → i < zone.endLine →
        isImport row = false := by
  constructor
  · intro free zone located i row hrow begins ends
    refine free zone located row (List.mem_iff_getElem?.2 ⟨i - (zone.beginLine - 1), ?_⟩)
    have place : zone.beginLine - 1 + (i - (zone.beginLine - 1)) = i := by omega
    rw [List.getElem?_drop, place, List.getElem?_take, if_pos ends, hrow]
  · intro free zone located row mem
    obtain ⟨i, hi⟩ := List.mem_iff_getElem?.1 mem
    rw [List.getElem?_drop, List.getElem?_take] at hi
    split at hi
    · exact free zone located _ row hi (by omega) (by assumption)
    · cases hi

/-- The last of the rows up to the last import statement is one. -/
theorem isImport_of_importRows {rows : List Text} {n : Nat} (h : importRows rows = n + 1) :
    ∃ row, rows[n]? = some row ∧ isImport row := by
  obtain ⟨above, below, rfl, habove, hbelow⟩ := exists_importRows rows
  rw [importRows_append, if_pos (importRows_eq_zero_iff.2 hbelow), habove] at h
  rcases List.eq_nil_or_concat above with rfl | ⟨front, row, rfl⟩
  · simp at h
  · rw [List.concat_eq_append] at habove h ⊢
    have last : row ∈ (front ++ [row]).getLast? := by simp
    refine ⟨row, ?_, isImport_getLast? habove last⟩
    have place : front.length = n := by simpa using h
    simp [← place]

theorem rows_put (hbelow : Text.rows below.flatten = below)
    (terminated : ∀ row ∈ above, Terminated row) (row_terminated : Terminated row) :
    Text.rows (above.flatten ++ (row ++ below.flatten)) = above ++ row :: below := by
  have regroup : above.flatten ++ (row ++ below.flatten) = (above ++ [row]).flatten ++ below.flatten := by
    simp
  rw [regroup, rows_append (terminated_concat terminated row_terminated), hbelow]
  simp

/-- A row without braces is put between rows. -/
theorem locate?_put (hrows : content.rows = above ++ below) (terminated : ∀ row ∈ above, Terminated row)
    (row_terminated : Terminated row) (braceless : Braceless row) :
    Text.rows (above.flatten ++ (row ++ below.flatten)) = above ++ row :: below ∧
      ExportZone.locate? (above.flatten ++ (row ++ below.flatten)) exportMarker =
        (ExportZone.locate? content exportMarker).map (ExportZone.insertRows · above.length 1) := by
  refine ⟨rows_put (rows_flatten_of_rows_eq hrows) terminated row_terminated, ?_⟩
  have single : row ++ below.flatten = [row].flatten ++ below.flatten := by simp
  rw [single, exportMarker_eq, flatten_of_rows_eq hrows]
  exact ExportZone.locate?_insert terminated (by simpa using row_terminated) (by decide) (by decide)
    (by simpa using braceless) below.flatten

/-- So the zone stays free of import statements, if the row is not one or stands outside. -/
theorem importFree_put (free : ImportFree content) (hrows : content.rows = above ++ below)
    (terminated : ∀ row ∈ above, Terminated row) (row_terminated : Terminated row)
    (braceless : Braceless row)
    (outside : isImport row → ∀ zone, ExportZone.locate? content exportMarker = some zone →
      above.length < zone.beginLine ∨ zone.endLine ≤ above.length) :
    ImportFree (above.flatten ++ (row ++ below.flatten)) := by
  rw [importFree_iff] at free ⊢
  obtain ⟨rows, located⟩ := locate?_put hrows terminated row_terminated braceless
  intro zone hzone i other hother begins ends
  rw [located] at hzone
  obtain ⟨old, hold, rfl⟩ := Option.map_eq_some_iff.1 hzone
  obtain ⟨begin_pos, begin_lt, -⟩ := ExportZone.lines_of_locate? hold
  dsimp only [ExportZone.insertRows] at begins ends
  rw [rows] at hother
  rcases Nat.lt_trichotomy i above.length with before | rfl | after
  · rw [List.getElem?_append_left before] at hother
    refine free old hold i other ?_ ?_ ?_
    · rw [hrows, List.getElem?_append_left before, hother]
    · split at begins <;> omega
    · split at ends <;> omega
  · obtain rfl : row = other := by simpa using hother
    rw [← Bool.not_eq_true]
    intro isImport
    rcases outside isImport old hold with above | below
    · rw [if_pos above] at begins
      omega
    · rw [if_neg (by omega)] at ends
      omega
  · obtain ⟨j, rfl⟩ : ∃ j, i = above.length + 1 + j := ⟨i - (above.length + 1), by omega⟩
    have shifted : (above ++ row :: below)[above.length + 1 + j]? = below[j]? := by
      rw [List.getElem?_append_right (by omega)]
      have place : above.length + 1 + j - above.length = j + 1 := by omega
      rw [place, List.getElem?_cons_succ]
    rw [shifted] at hother
    refine free old hold (above.length + j) other ?_ ?_ ?_
    · rw [hrows, List.getElem?_append_right (by omega)]
      simpa using hother
    · split at begins <;> omega
    · split at ends <;> omega

theorem rows_append_line {row : Text} (hrows : content.rows = above ++ [row]) (last : '\n' ∉ row)
    (below : Text) : Text.rows (content ++ '\n' :: below) =
      above ++ (row ++ ['\n']) :: Text.rows below := by
  have regroup : content ++ '\n' :: below = above.flatten ++ (row ++ '\n' :: below) := by
    conv => lhs; rw [flatten_of_rows_eq hrows]
    simp
  rw [regroup, rows_append (terminated_of_rows_eq hrows (by simp)), rows_line_append last]

/-- An import line is put below an import statement, so not into a zone without one. -/
theorem importFree_insertImport (isLine : IsImportLine line) (free : ImportFree content) :
    ImportFree (insertImport content line) := by
  have statement : ∀ n, importRows content.rows = n + 1 → ∀ zone,
      ExportZone.locate? content exportMarker = some zone →
        n + 1 < zone.beginLine ∨ zone.endLine ≤ n := by
    intro n hn zone located
    obtain ⟨row, hrow, isImport⟩ := isImport_of_importRows hn
    by_contra inside
    rw [importFree_iff.1 free zone located n row hrow (by omega) (by omega)] at isImport
    cases isImport
  have bound := importRows_le_length content.rows
  rw [insertImport]
  cases putAt_insertLine content line (importRows content.rows) with
  | @between above below hrows terminated length new =>
    rw [new]
    refine importFree_put free hrows terminated (terminated_terminate isLine.oneLine)
      (isLine.braceless.append (by simp [Braceless])) fun _ zone located => ?_
    have begin_pos := (ExportZone.lines_of_locate? located).1
    cases hn : importRows content.rows with
    | zero => left; omega
    | succ n => rcases statement n hn zone located with _ | _ <;> omega
  | @below above row hrows last beyond new =>
    -- the last row is an import statement without a line feed, so that the zone ends above it
    have below_marker : ExportZone.locate? (insertLine content (importRows content.rows) line)
        exportMarker = ExportZone.locate? content exportMarker := by
      rw [new, exportMarker_eq]
      exact ExportZone.locate?_append_line (by decide) (by decide)
        (isLine.braceless.append (by simp [Braceless])) content
    have count : importRows content.rows = above.length + 1 := by
      rw [hrows] at bound beyond ⊢
      simp at bound beyond
      omega
    rw [importFree_iff]
    intro zone located i other hother begins ends
    rw [below_marker] at located
    have begin_lt := (ExportZone.lines_of_locate? located).2.1
    have above_end : zone.endLine ≤ above.length := by
      have bounds := (ExportZone.lines_of_locate? located).2.2
      rw [hrows, List.length_append, List.length_singleton] at bounds
      rcases statement above.length count zone located with _ | _ <;> omega
    have before : i < above.length := by omega
    rw [new, rows_append_line hrows last, List.getElem?_append_left before] at hother
    refine importFree_iff.1 free zone located i other ?_ begins ends
    rw [hrows, List.getElem?_append_left before, hother]

theorem isImport_iff {row : Text} :
    isImport row ↔ ∃ c, isBlank c ∧ "import".toList ++ [c] <+: row := by
  constructor
  · intro h
    unfold isImport at h
    split at h
    · rename_i c rest found
      rw [after?_eq_some_iff] at found
      exact ⟨c, h, rest, by simp [found]⟩
    · simp at h
  · rintro ⟨c, hc, rest, rfl⟩
    have found : after? ("import".toList ++ [c] ++ rest) "import".toList = some (c :: rest) := by
      rw [after?_eq_some_iff]
      simp
    rw [isImport, found]
    exact hc

/-- The comma is not part of what makes a row an import statement. -/
theorem isImport_comma (h : isImport row = false) :
    isImport (row.splitBreak.1.trimEnd ++ ',' :: row.splitBreak.2) = false := by
  rw [← Bool.not_eq_true] at h ⊢
  rw [isImport_iff] at h ⊢
  rintro ⟨c, hc, lead⟩
  have no_comma : ',' ∉ "import".toList ++ [c] := by
    rw [List.mem_append, List.mem_singleton, not_or]
    refine ⟨by decide, ?_⟩
    rintro rfl
    exact absurd hc (by decide)
  rw [prefix_append_cons_iff no_comma] at lead
  obtain ⟨blanks, parts⟩ := exists_rowParts row
  refine h ⟨c, hc, ?_⟩
  rw [parts.whole]
  exact lead.trans (List.prefix_append _ _)

/-- A row of the zone gets a comma, and the zone stays where it is. -/
theorem locate?_comma {marker : Text} (single : '\n' ∉ marker)
    (located : ExportZone.locate? content marker = some zone)
    (hrows : content.rows = above ++ row :: below)
    (terminated : ∀ other ∈ above ++ [row], Terminated other) (within : zone.beginLine ≤ above.length) :
    ExportZone.locate? (above.flatten ++
      ((row.splitBreak.1.trimEnd ++ ',' :: row.splitBreak.2) ++ below.flatten)) marker =
        some zone := by
  have above_terminated : ∀ other ∈ above, Terminated other := fun other mem =>
    terminated other (List.mem_append_left _ mem)
  obtain ⟨blanks, parts⟩ := exists_rowParts row
  have whole : content = above.flatten ++ (row.splitBreak.1.trimEnd ++
      (blanks ++ (row.splitBreak.2 ++ below.flatten))) := by
    rw [flatten_of_rows_eq hrows, List.flatten_cons]
    conv => lhs; rw [parts.whole]
    simp
  have oneLine : '\n' ∉ blanks := by
    have := (splitBreak_of_terminated (terminated row (by simp))).1
    rw [parts.splitBreak_eq, List.mem_append, not_or] at this
    exact this.2
  have braceless : Braceless blanks :=
    ⟨fun h => absurd (parts.blank _ h) (by decide), fun h => absurd (parts.blank _ h) (by decide)⟩
  rw [whole] at located
  have trimmed := ExportZone.locate?_withoutInline single above_terminated braceless oneLine within located
  have redone := ExportZone.locate?_withInline single above_terminated (show Braceless [','] by
    simp [Braceless]) (by decide) within trimmed
  simpa using redone

theorem rows_below {row : Text} (hrows : content.rows = above ++ row :: below) :
    Text.rows below.flatten = below := by
  have regroup : content.rows = (above ++ [row]) ++ below := by simp [hrows]
  exact rows_flatten_of_rows_eq regroup

theorem importFree_comma (free : ImportFree content)
    (located : ExportZone.locate? content exportMarker = some zone)
    (hrows : content.rows = above ++ row :: below)
    (terminated : ∀ other ∈ above ++ [row], Terminated other) (within : zone.beginLine ≤ above.length)
    (ends : above.length + 2 = zone.endLine) : ImportFree (above.flatten ++
      ((row.splitBreak.1.trimEnd ++ ',' :: row.splitBreak.2) ++ below.flatten)) := by
  have rows := rows_put (rows_below hrows) (fun other mem => terminated other (List.mem_append_left _ mem))
    (terminated_comma (terminated row (by simp)))
  rw [importFree_iff] at free ⊢
  intro same hsame i other hother begins within_end
  obtain rfl : zone = same :=
    Option.some.inj ((locate?_comma (by decide) located hrows terminated within).symm.trans hsame)
  have before : ∀ j other, content.rows[j]? = some other → zone.beginLine ≤ j + 1 → j < zone.endLine →
      isImport other = false := free zone located
  rw [rows] at hother
  by_cases here : i = above.length
  · subst here
    obtain rfl : _ = other := by simpa using hother
    exact isImport_comma (before above.length row (by simp [hrows]) begins within_end)
  · refine before i other ?_ begins within_end
    rw [hrows, ← hother]
    rcases Nat.lt_or_gt_of_ne here with above | below
    · rw [List.getElem?_append_left above, List.getElem?_append_left above]
    · rw [List.getElem?_append_right (by omega), List.getElem?_append_right (by omega)]
      obtain ⟨j, hj⟩ : ∃ j, i - above.length = j + 1 := ⟨i - above.length - 1, by omega⟩
      rw [hj, List.getElem?_cons_succ, List.getElem?_cons_succ]

theorem importFree_insertExport (word : IsWord x) (free : ImportFree content)
    (h : insertExport content (entry x) = .ok new) : ImportFree new := by
  have plain : ∀ comma, isImport ((Item.ofIdentifier x).row comma) = false := by
    intro comma
    cases comma <;> rfl
  have put : ∀ {text : Text} {above below : List Text} (comma : Bool), ImportFree text →
      text.rows = above ++ below → (∀ row ∈ above, Terminated row) →
      ImportFree (above.flatten ++ ((Item.ofIdentifier x).row comma ++ below.flatten)) := by
    intro text above below comma free hrows terminated
    refine importFree_put free hrows terminated ((tidy_ofIdentifier word).terminated_row comma)
      (braceless_ofIdentifier word comma) fun isImport => ?_
    rw [plain] at isImport
    cases isImport
  obtain ⟨zone, located, entered⟩ := entered_of_insertExport h
  cases entered with
  | plain hrows _ terminated => exact put _ free hrows terminated
  | @comma above below row hrows ends within terminated bare =>
    -- the comma first, and then the entry as if the row always had it
    have redone := importFree_comma free located hrows terminated within ends
    have above_terminated : ∀ other ∈ above, Terminated other := fun other mem =>
      terminated other (List.mem_append_left _ mem)
    have comma_terminated := terminated_comma (terminated row (by simp))
    have rows := rows_put (rows_below hrows) above_terminated comma_terminated
    have regroup : above ++ (row.splitBreak.1.trimEnd ++ ',' :: row.splitBreak.2) :: below =
        (above ++ [row.splitBreak.1.trimEnd ++ ',' :: row.splitBreak.2]) ++ below := by simp
    have entered := put false redone (rows.trans regroup)
      (terminated_concat above_terminated comma_terminated)
    simpa using entered

end Zones

end ComponentForge.Index

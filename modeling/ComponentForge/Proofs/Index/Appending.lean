import ComponentForge.Proofs.Index.FrameZone
import ComponentForge.Proofs.Index.NameList

/-!
# Names appended to a list

An insertion into an export zone goes by lines and a list of names goes by commas. The text between the
brackets is cut at its last line break, and the new line is put there, with a comma after it, with one
put at the end of the line above, or without one. Each way is read as a list for itself.
-/

namespace ComponentForge.Index

open Text

/-- The text between the bracket of the marker and its partner. -/
def inside? (content : Text) : Option Text := do
  let (_, rest) ← content.splitBefore? exportMarker
  insideBraces? 0 (rest.drop exportMarker.length)

variable {content inside within x : Text} {zone : ExportZone}

theorem eq_of_inside? (h : inside? content = some inside) : ∃ before rest,
    content = before ++ (exportMarker ++ (inside ++ '}' :: rest)) ∧
      content.splitBefore? exportMarker = some (before, exportMarker ++ (inside ++ '}' :: rest)) := by
  obtain ⟨⟨before, after⟩, found, closed⟩ := Option.bind_eq_some_iff.1 h
  obtain ⟨tail, rfl⟩ := prefix_of_splitBefore? found
  dsimp only at closed
  rw [List.drop_left] at closed
  obtain ⟨rest, rfl⟩ := append_of_insideBraces? closed
  exact ⟨before, rest, (append_of_splitBefore? found).symm, found⟩

theorem inside?_of_braceless {before rest other : Text}
    (found : Text.splitBefore? (before ++ (exportMarker ++ other)) exportMarker =
      some (before, exportMarker ++ other)) (braceless : Braceless within) :
    inside? (before ++ (exportMarker ++ (within ++ '}' :: rest))) = some within := by
  have here := splitBefore?_of_same found (within ++ '}' :: rest)
  simp only [inside?, here, Option.bind_eq_bind, Option.bind_some, List.drop_left]
  rw [insideBraces?_braceless braceless, insideBraces?_end]
  simp

/-- The lines of a zone count the line breaks before its marker and between its brackets. -/
theorem zone_of_inside? {before rest : Text}
    (found : content.splitBefore? exportMarker =
      some (before, exportMarker ++ (inside ++ '}' :: rest)))
    (between : inside? content = some inside)
    (located : ExportZone.locate? content exportMarker = some zone) :
    '\n' ∈ inside ∧
      zone = ⟨before.count '\n' + 1, before.count '\n' + inside.count '\n' + 1⟩ := by
  simp only [inside?, found, Option.bind_eq_bind, Option.bind_some, List.drop_left] at between
  have drop : (exportMarker ++ (inside ++ '}' :: rest)).drop ("export ".toList.length + 1) =
      inside ++ '}' :: rest := rfl
  rw [exportMarker_eq, ExportZone.locate?_eq (by decide) (by decide), ← exportMarker_eq, found,
    Option.bind_some, ExportZone.ofMatch?, drop, between, Option.bind_some] at located
  split at located
  · exact ⟨List.count_pos_iff.1 (by assumption), (Option.some.inj located).symm⟩
  · cases located

section Insertion

variable {before upper lower last rest : Text}

/-- The zone of a marker and its brackets, where `lower` stands before the closing one on its line. -/
def zoneOf (before upper : Text) : ExportZone :=
  ⟨before.count '\n' + 1, before.count '\n' + upper.count '\n' + 2⟩

theorem exists_above (before upper : Text) : ∃ above : List Text,
    (∀ row ∈ above, Terminated row) ∧ above.flatten = before ++ (exportMarker ++ upper) ++ ['\n'] ∧
      above.length = before.count '\n' + upper.count '\n' + 1 := by
  obtain ⟨above, terminated, whole⟩ := exists_terminated (before ++ (exportMarker ++ upper))
  have count := count_flatten terminated
  have marker : exportMarker.count '\n' = 0 := rfl
  rw [whole] at count
  simp only [List.count_append, marker, List.count_singleton_self] at count
  exact ⟨above, terminated, whole, by omega⟩

/-- If the closing bracket stands on the line below the marker, the name goes between them. -/
theorem insertExport_within (upper_line : '\n' ∉ upper)
    (located : ExportZone.locate?
      (before ++ (exportMarker ++ (upper ++ '\n' :: lower ++ '}' :: rest))) exportMarker =
        some (zoneOf before upper)) :
    insertExport (before ++ (exportMarker ++ (upper ++ '\n' :: lower ++ '}' :: rest))) (entry x) =
      .ok (before ++ (exportMarker ++
        (upper ++ '\n' :: (' ' :: ' ' :: x ++ '\n' :: lower) ++ '}' :: rest))) := by
  obtain ⟨above, terminated, whole, count⟩ := exists_above before upper
  have regroup : before ++ (exportMarker ++ (upper ++ '\n' :: lower ++ '}' :: rest)) =
      above.flatten ++ (lower ++ '}' :: rest) := by
    simp [whole]
  have lines : zoneOf before upper = ⟨above.length, above.length + 1⟩ := by
    rw [zoneOf, count, List.count_eq_zero_of_not_mem upper_line]
  rw [regroup, lines] at located
  rw [regroup, insertExport_of_plain terminated (Or.inl rfl) located]
  simp [whole, Item.row, Item.ofIdentifier]

/-- The line above the closing bracket, between the rows above it and the text below. -/
theorem exists_above_line (last_line : '\n' ∉ last) (before upper lower rest : Text) :
    ∃ above : List Text, (∀ row ∈ above ++ [last ++ ['\n']], Terminated row) ∧
      above.flatten = before ++ (exportMarker ++ upper) ++ ['\n'] ∧
      before ++ (exportMarker ++ (upper ++ '\n' :: last ++ '\n' :: lower ++ '}' :: rest)) =
        (above ++ [last ++ ['\n']]).flatten ++ (lower ++ '}' :: rest) ∧
      before.count '\n' + 1 ≤ above.length ∧
      zoneOf before (upper ++ '\n' :: last) = ⟨before.count '\n' + 1, above.length + 2⟩ := by
  obtain ⟨above, terminated, whole, count⟩ := exists_above before upper
  refine ⟨above, terminated_concat terminated ⟨last, last_line, rfl⟩, whole, by simp [whole],
    by omega, ?_⟩
  simp only [zoneOf, List.count_append, List.count_cons_self, count,
    List.count_eq_zero_of_not_mem last_line]
  congr 1

section Below

variable (last_line : '\n' ∉ last)
  (located : ExportZone.locate?
    (before ++ (exportMarker ++ (upper ++ '\n' :: last ++ '\n' :: lower ++ '}' :: rest)))
      exportMarker = some (zoneOf before (upper ++ '\n' :: last)))

include last_line located

/-- Below a line with a comma the name goes with a comma. -/
theorem insertExport_before (comma : last.trimEnd.endsWith ',') :
    insertExport
        (before ++ (exportMarker ++ (upper ++ '\n' :: last ++ '\n' :: lower ++ '}' :: rest)))
        (entry x) =
      .ok (before ++ (exportMarker ++ (upper ++ '\n' :: last ++
        '\n' :: (' ' :: ' ' :: x ++ ',' :: '\n' :: lower) ++ '}' :: rest))) := by
  obtain ⟨above, terminated, whole, regroup, within, lines⟩ :=
    exists_above_line last_line before upper lower rest
  have ended : ∀ row ∈ (above ++ [last ++ ['\n']]).getLast?, commaEnded row := by
    simpa [commaEnded_eq, trimEnd_append_blank, isBlank_lineFeed] using comma
  have number : above.length + 2 = (above ++ [last ++ ['\n']]).length + 1 := by simp
  rw [regroup, lines, number] at located
  rw [regroup, insertExport_of_comma terminated rfl (by simp; omega) ended located]
  simp [whole, Item.row, Item.ofIdentifier]

/-- A line without a comma gets one, and the name goes below it. -/
theorem insertExport_after (bare : last.trimEnd.endsWith ',' = false) :
    ∃ returns, (∀ c ∈ returns, c = '\r') ∧
      insertExport
          (before ++ (exportMarker ++ (upper ++ '\n' :: last ++ '\n' :: lower ++ '}' :: rest)))
          (entry x) =
        .ok (before ++ (exportMarker ++ (upper ++ '\n' :: last.trimEnd ++
          ',' :: (returns ++ '\n' :: (' ' :: ' ' :: x ++ '\n' :: lower)) ++ '}' :: rest))) := by
  obtain ⟨above, terminated, whole, regroup, within, lines⟩ :=
    exists_above_line last_line before upper lower rest
  have trimmed : (last ++ ['\n']).trimEnd = last.trimEnd :=
    trimEnd_append_blank last (by simp [isBlank_lineFeed])
  obtain ⟨-, returns, ending, -, hreturns⟩ := splitBreak_of_terminated ⟨last, last_line, rfl⟩
  have redone : withComma (last ++ ['\n']) = last.trimEnd ++ ',' :: (returns ++ ['\n']) := by
    rw [withComma, trimEnd_splitBreak, trimmed, ending]
  rw [regroup, lines] at located
  refine ⟨returns, hreturns, ?_⟩
  rw [regroup, insertExport_of_bare terminated (by rw [commaEnded_eq, trimmed, bare]) rfl within
    located, redone]
  simp [whole, Item.row, Item.ofIdentifier]

end Below

end Insertion

section Lists

variable {text upper lower last : Text} {old : List Text} {c : Char}

theorem splitEnd_lastBreak (last_line : '\n' ∉ last) (upper : Text) :
    splitEnd (· != '\n') (upper ++ '\n' :: last) = (upper ++ ['\n'], last) := by
  have regroup : upper ++ '\n' :: last = upper ++ ['\n'] ++ last := by simp
  rw [regroup, splitEnd_append_of_last (by simp)]
  intro c hc
  simpa using fun same : c = '\n' => last_line (same ▸ hc)

theorem lastLine_append (last_line : '\n' ∉ last) (upper : Text) :
    lastLine (upper ++ '\n' :: last) = last := by
  rw [lastLine, splitEnd_lastBreak last_line]

theorem linesAbove_append (last_line : '\n' ∉ last) (upper : Text) :
    linesAbove (upper ++ '\n' :: last) = upper := by
  rw [linesAbove, splitEnd_lastBreak last_line, List.dropLast_concat]

/-- The white space in a list. -/
theorem isListSpace_of_isBlank (list : names? text = some old) (mem : c ∈ text) (blank : isBlank c) :
    isListSpace c := by
  rcases mem_of_readable (names?_eq_some_iff.1 list).1 mem with space | rfl | char
  · exact space
  · cases blank
  · simp [isIdentifierChar, blank] at char

theorem braceless_of_list (list : names? text = some old) : Braceless text := by
  have readable := (names?_eq_some_iff.1 list).1
  exact ⟨fun mem => absurd (mem_of_readable readable mem) (by decide),
    fun mem => absurd (mem_of_readable readable mem) (by decide)⟩

/-- In a list a line with a comma at its end awaits a name. -/
theorem awaitsName_of_comma (list : names? (upper ++ '\n' :: last ++ '\n' :: lower) = some old)
    (comma : last.trimEnd.endsWith ',') : AwaitsName (upper ++ '\n' :: last) := by
  obtain ⟨front, hfront⟩ := eq_append_of_endsWith comma
  obtain ⟨blanks, parts, blank⟩ : ∃ blanks, last = front ++ ',' :: blanks ∧ ∀ c ∈ blanks, isBlank c :=
    ⟨(splitEnd isBlank last).2, by
      conv => lhs; rw [← splitEnd_append isBlank last, ← trimEnd, hfront]
      simp, splitEnd_ending⟩
  have spaces : ∀ c ∈ blanks, isListSpace c := fun c hc =>
    isListSpace_of_isBlank list (by simp [parts, hc]) (blank c hc)
  have vacant : cells blanks = [[]] := by
    have whole := cells_spaces_append spaces []
    rwa [List.append_nil] at whole
  have regroup : upper ++ '\n' :: last = (upper ++ '\n' :: front) ++ ',' :: blanks := by
    simp [parts]
  rw [regroup, AwaitsName, cells_comma, vacant, List.getLast?_append]
  rfl

/-- In a list the white space at the end of a line does not matter. -/
theorem cells_trimEnd (list : names? (upper ++ '\n' :: last ++ '\n' :: lower) = some old) :
    cells (upper ++ '\n' :: last.trimEnd) = cells (upper ++ '\n' :: last) := by
  have spaces : ∀ c ∈ (splitEnd isBlank last).2, isListSpace c := by
    intro c hc
    have inside : c ∈ last := by
      rw [← splitEnd_append isBlank last]
      exact List.mem_append_right _ hc
    exact isListSpace_of_isBlank list (by simp [inside]) (splitEnd_ending c hc)
  have regroup : upper ++ '\n' :: last =
      (upper ++ '\n' :: last.trimEnd) ++ (splitEnd isBlank last).2 := by
    conv => lhs; rw [← splitEnd_append isBlank last]
    simp [trimEnd]
  rw [regroup, cells_append_spaces _ spaces]

end Lists

variable {old : List Text}

/-- An insertion into a list of names appends the name exactly where a line of its own takes it. -/
theorem insertExport_appends (identifier : IsIdentifier x)
    (located : ExportZone.locate? content exportMarker = some zone)
    (between : inside? content = some inside) (list : names? inside = some old) :
    ∃ new within, insertExport content (entry x) = .ok new ∧ inside? new = some within ∧
      (names? within = some (old ++ [x]) ↔ TakesName x inside) := by
  obtain ⟨before, rest, rfl, found⟩ := eq_of_inside? between
  obtain ⟨broken, rfl⟩ := zone_of_inside? found between located
  obtain ⟨upper, lower, rfl, lower_line⟩ := exists_lastBreak broken
  have lines : (⟨before.count '\n' + 1, before.count '\n' + (upper ++ '\n' :: lower).count '\n' + 1⟩ :
      ExportZone) = zoneOf before upper := by
    simp [zoneOf, List.count_eq_zero_of_not_mem lower_line, Nat.add_assoc]
  rw [lines] at located
  rw [TakesName, linesAbove_append lower_line, lastLine_append lower_line]
  have braceless := braceless_of_list list
  have name := identifier.braceless
  by_cases upper_lines : '\n' ∈ upper
  · obtain ⟨above, last, rfl, last_line⟩ := exists_lastBreak upper_lines
    cases comma : endsWith ',' (trimEnd last) with
    | true =>
      refine ⟨_, _, insertExport_before last_line located comma,
        inside?_of_braceless found ?_, ?_⟩
      · simp_all [Braceless]
      · rw [names?_before_iff identifier list (awaitsName_of_comma list comma),
          if_pos upper_lines, lastLine_append last_line, comma]
        simp
    | false =>
      obtain ⟨returns, hreturns, inserted⟩ := insertExport_after last_line located comma
      have spaces : ∀ c ∈ returns ++ ['\n'], isListSpace c := by
        intro c hc
        rcases List.mem_append.1 hc with hc | hc
        · rw [hreturns c hc]
          rfl
        · rw [List.mem_singleton.1 hc]
          rfl
      have regroup : ∀ below : Text, above ++ '\n' :: last.trimEnd ++ ',' :: (returns ++ '\n' :: below) =
          (above ++ '\n' :: last.trimEnd) ++ ',' :: ((returns ++ ['\n']) ++ below) := by simp
      refine ⟨_, _, inserted, inside?_of_braceless found ?_, ?_⟩
      · have trimmed : ∀ c ∈ last.trimEnd, c ∈ last := fun c hc => ( trimEnd_infix last).subset hc
        have breaks : Braceless returns :=
          ⟨fun mem => absurd (hreturns _ mem) (by decide),
            fun mem => absurd (hreturns _ mem) (by decide)⟩
        have no_open := mt (trimmed '{')
        have no_close := mt (trimmed '}')
        simp_all [Braceless]
      · rw [regroup, names?_after_iff identifier list (cells_trimEnd list) spaces,
          if_pos upper_lines, lastLine_append last_line, comma]
        simp
  · refine ⟨_, _, insertExport_within upper_lines located,
      inside?_of_braceless found ?_, ?_⟩
    · simp_all [Braceless]
    · rw [names?_within_iff identifier list, if_neg upper_lines]

/-- Names between tabs, an empty line and carriage returns. -/
def windowsNames : Text :=
  "export \x7b\r\n\tA ,\r\n\r\n  B\t\r\n\x7d;\r\n".toList

theorem insertExport_appends_windowsNames : ∃ new within,
    insertExport windowsNames (entry ['C']) = .ok new ∧ inside? new = some within ∧
      names? within = some [['A'], ['B'], ['C']] := by
  obtain ⟨new, within, inserted, between, appended⟩ :=
    insertExport_appends (x := ['C']) (by decide)
      (show ExportZone.locate? windowsNames exportMarker = some ⟨1, 5⟩ by decide +kernel)
      (show inside? windowsNames = some "\r\n\tA ,\r\n\r\n  B\t\r\n".toList by decide +kernel)
      (show names? _ = some [['A'], ['B']] by decide +kernel)
  exact ⟨new, within, inserted, between, appended.2 (by decide +kernel)⟩

/-- A name on the line of the marker. -/
def inlineNames : Text :=
  "export \x7b A\n\x7d;\n".toList

theorem insertExport_misses_comma :
    ExportZone.locate? inlineNames exportMarker = some ⟨1, 2⟩ ∧
      (inside? inlineNames).bind names? = some [['A']] ∧ IsIdentifier ['B'] ∧
      ∃ new, insertExport inlineNames (entry ['B']) = .ok new ∧ (inside? new).bind names? = none :=
  ⟨by decide +kernel, by decide +kernel, by decide,
    "export \x7b A\n  B\n\x7d;\n".toList, by decide +kernel, by decide +kernel⟩

end ComponentForge.Index

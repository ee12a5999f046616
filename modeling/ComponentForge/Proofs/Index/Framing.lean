import ComponentForge.Proofs.Index.Patch

/-!
# The frame of a text

A text whose zone is located has a frame around two empty lists if no import statement stands in the
zone, the row before the closing one shows its comma style, and the last import statement has its
line feed.
-/

namespace ComponentForge.Index

open Text

/-- What makes the edits of an index file leave no trace when they are taken back. -/
structure Orderly (text : Text) (zone : ExportZone) : Prop where
  /-- No row from the marker to the closing brace is an import statement. -/
  no_import : ∀ row ∈ (text.rows.take zone.endLine).drop (zone.beginLine - 1), isImport row = false
  /-- The content of the last row inside the zone ends with a comma or not with white space. -/
  last_row : zone.isEmpty = false → ∀ row ∈ text.rows[zone.endLine - 2]?,
    commaEnded row ∨ row.splitBreak.1.trimEnd = row.splitBreak.1
  /-- The last import statement ends with a line break. -/
  last_import : ∀ row ∈ (text.rows.filter isImport).getLast?, row.endsWith '\n'

/-- The rows up to the last import statement. -/
theorem exists_importRows (rows : List Text) : ∃ above below, rows = above ++ below ∧
    importRows above = above.length ∧ ∀ row ∈ below, isImport row = false := by
  induction rows with
  | nil => exact ⟨[], [], rfl, rfl, by simp⟩
  | cons row more ih =>
    obtain ⟨above, below, rfl, habove, hbelow⟩ := ih
    by_cases hstop : above = [] ∧ isImport row = false
    · obtain ⟨rfl, hrow⟩ := hstop
      refine ⟨[], row :: below, rfl, rfl, ?_⟩
      simpa [hrow] using hbelow
    · refine ⟨row :: above, below, rfl, ?_, hbelow⟩
      rw [importRows, habove]
      cases above with
      | nil =>
        have hrow : isImport row = true := by simpa using hstop
        simp [hrow]
      | cons next above => simp

theorem isImport_getLast? {above : List Text} (h : importRows above = above.length) {row : Text}
    (hrow : row ∈ above.getLast?) : isImport row := by
  rcases List.eq_nil_or_concat above with rfl | ⟨front, last, rfl⟩
  · simp at hrow
  · obtain rfl : last = row := by simpa using hrow
    rw [List.concat_eq_append, importRows_append] at h
    by_contra hlast
    have none : importRows [last] = 0 := importRows_eq_zero_iff.2 (by simpa using hlast)
    rw [if_pos none] at h
    have := importRows_le_length front
    simp at h
    omega

/-- The rows up to the last import statement have their line feeds. -/
theorem terminated_imports {text : Text} {above below : List Text}
    (broken : ∀ row ∈ (text.rows.filter isImport).getLast?, row.endsWith '\n')
    (hrows : text.rows = above ++ below) (habove : importRows above = above.length) :
    ∀ row ∈ above, Terminated row := by
  by_cases hbelow : below = []
  · subst hbelow
    rw [List.append_nil] at hrows
    rcases List.eq_nil_or_concat above with rfl | ⟨front, last, rfl⟩
    · simp
    · rw [List.concat_eq_append] at hrows habove
      have statement : isImport last := isImport_getLast? habove (by simp)
      have fed := broken last (by simp [hrows, statement])
      have hlast : Terminated last := by
        have hmem : last ∈ text.rows := by simp [hrows]
        refine (terminated_or_notMem hmem).resolve_right fun hnot => hnot ?_
        exact List.mem_of_getLast? (by simpa [endsWith] using fed)
      intro row hrow
      rcases List.mem_append.1 (List.concat_eq_append ▸ hrow) with hrow | hrow
      · exact terminated_of_rows_eq hrows (List.cons_ne_nil last []) row hrow
      · exact List.mem_singleton.1 hrow ▸ hlast
  · exact terminated_of_rows_eq hrows hbelow

/-- A row without a comma at its end is the row of an item. -/
theorem exists_item {row : Text} (hrow : Terminated row)
    (plain : row.splitBreak.1.trimEnd = row.splitBreak.1) (bare : commaEnded row = false) :
    ∃ item : Item, item.Tidy ∧ item.row false = row := by
  obtain ⟨line, hline, rfl⟩ := hrow
  have whole := splitEnd_append (fun c => c == '\n' || c == '\r') (line ++ ['\n'])
  have nonbreak : ∀ c ∈ (splitEnd (fun c => c == '\n' || c == '\r') (line ++ ['\n'])).1.getLast?,
      (c == '\n' || c == '\r') = false := splitEnd_body
  have breaks : ∀ c ∈ (splitEnd (fun c => c == '\n' || c == '\r') (line ++ ['\n'])).2,
      (c == '\n' || c == '\r') = true := splitEnd_ending
  rw [commaEnded, plain] at bare
  rw [splitBreak] at plain bare
  generalize splitEnd (fun c => c == '\n' || c == '\r') (line ++ ['\n']) = parts at *
  obtain ⟨body, ending⟩ := parts
  dsimp only at *
  rcases List.eq_nil_or_concat ending with rfl | ⟨returns, last, rfl⟩
  · rw [List.append_nil] at whole
    have := nonbreak '\n' (by simp [whole])
    simp at this
  · rw [List.concat_eq_append] at *
    obtain ⟨hparts, hlast⟩ := List.append_inj' ((List.append_assoc _ _ _).trans whole) rfl
    obtain rfl : last = '\n' := by simpa using hlast
    refine ⟨⟨body, returns ++ ['\n']⟩, ⟨?_, plain, bare, returns, ?_, rfl⟩, ?_⟩
    · exact fun hc => hline (hparts ▸ List.mem_append_left _ hc)
    · intro c hc
      have := breaks c (List.mem_append_left _ hc)
      have unfed : c ≠ '\n' := by
        rintro rfl
        exact hline (hparts ▸ List.mem_append_right _ hc)
      simpa [unfed] using this
    · exact whole

/-- How the rows of a text surround the end of its zone. -/
structure Surrounds (front : List Text) (last : Option Item) (back : List Text) (trailing : Bool)
    (text : Text) (zone : ExportZone) : Prop where
  rows : text.rows = front ++ last.toList.map (·.row false) ++ back
  closing : front.length + last.toList.length + 1 = zone.endLine
  back_ne_nil : back ≠ []
  tidy : ∀ item ∈ last, item.Tidy
  styled : Styled trailing front zone.beginLine last.toList
  alone : trailing → last = none

theorem exists_surrounds {text : Text} {zone : ExportZone} (orderly : Orderly text zone)
    (hzone : zone.beginLine < zone.endLine) (hend : zone.endLine ≤ text.rows.length) :
    ∃ front last back trailing, Surrounds front last back trailing text zone := by
  obtain ⟨begin, endLine⟩ := zone
  dsimp only at hzone hend
  obtain ⟨upper, back, hrows, hupper⟩ : ∃ upper back, text.rows = upper ++ back ∧
      upper.length = endLine - 1 :=
    ⟨text.rows.take (endLine - 1), text.rows.drop (endLine - 1), (List.take_append_drop _ _).symm,
      List.length_take_of_le (by omega)⟩
  have hback : back ≠ [] := by
    rintro rfl
    rw [hrows, List.append_nil] at hend
    omega
  have terminated := terminated_of_rows_eq hrows hback
  by_cases hempty : endLine = begin + 1
  · refine ⟨upper, none, back, false, by simpa using hrows, ?_, hback, by simp, ?_, by simp⟩
    · simp; omega
    · simp only [Styled, Bool.false_eq_true, if_false]
      omega
  · rcases List.eq_nil_or_concat upper with rfl | ⟨front, row, rfl⟩
    · simp at hupper
      omega
    · rw [List.concat_eq_append] at *
      rw [List.length_append, List.length_singleton] at hupper
      have at_end : (front ++ [row] ++ back)[endLine - 2]? = some row := by
        have number : endLine - 2 = front.length := by omega
        simp [number]
      have style := orderly.last_row (by simpa [ExportZone.isEmpty] using hempty) row
        (by rw [hrows]; exact at_end)
      cases comma : commaEnded row with
      | true =>
        refine ⟨front ++ [row], none, back, true, by simpa using hrows, ?_, hback, by simp, ?_,
          by simp⟩
        · simp; omega
        · simp only [Styled, if_true, List.length_append, List.length_singleton]
          refine ⟨by omega, fun other hother => ?_⟩
          obtain rfl : row = other := by simpa using hother
          exact comma
      | false =>
        obtain ⟨item, tidy, rfl⟩ :=
          exists_item (terminated row (by simp)) (by simpa [comma] using style) comma
        refine ⟨front, some item, back, false, by simpa using hrows, ?_, hback, ?_, ?_, by simp⟩
        · simp; omega
        · rintro other hother
          obtain rfl : item = other := by simpa using hother
          exact tidy
        · simp only [Styled, Bool.false_eq_true, if_false]
          exact ⟨by omega, by simp⟩

namespace Surrounds

variable {front above below back : List Text} {last : Option Item} {trailing : Bool} {text : Text}
  {zone : ExportZone}

theorem begin_le (around : Surrounds front last back trailing text zone) :
    zone.beginLine ≤ front.length := by
  have styled := around.styled
  cases trailing <;> simp only [Styled, if_true, if_false, Bool.false_eq_true] at styled
  · exact styled.1
  · exact Nat.le_of_lt styled.1

theorem listing_last (around : Surrounds front last back trailing text zone) :
    listing trailing last.toList = last.toList.map (·.row false) := by
  cases last with
  | none => rfl
  | some item =>
    have bare : trailing = false := by
      rw [← Bool.not_eq_true]
      intro h
      exact absurd (around.alone h) (by simp)
    simp [bare, listing]

/-- The last import statement stands above the zone or below it. -/
theorem imports_outside (orderly : Orderly text zone) (hrows : text.rows = above ++ below)
    (habove : importRows above = above.length) (hzone : 0 < zone.beginLine) :
    above.length < zone.beginLine ∨ zone.endLine < above.length := by
  by_contra inside
  have hne : above ≠ [] := by
    rintro rfl
    simp at inside
    omega
  obtain ⟨row, hrow⟩ := Option.ne_none_iff_exists'.1 (mt List.getLast?_eq_none_iff.1 hne)
  have statement := isImport_getLast? habove hrow
  rw [List.getLast?_eq_getElem?] at hrow
  have not_import := orderly.no_import row (by
    refine List.mem_of_getElem? (i := above.length - 1 - (zone.beginLine - 1)) ?_
    rw [List.getElem?_drop, List.getElem?_take_of_lt (by omega), hrows,
      List.getElem?_append_left (by omega)]
    rw [show zone.beginLine - 1 + (above.length - 1 - (zone.beginLine - 1)) = above.length - 1 by
      omega]
    exact hrow)
  simp [statement] at not_import

theorem exists_upper_frame (around : Surrounds front last back trailing text zone)
    (located : ExportZone.locate? text exportMarker = some zone) (hrows : text.rows = above ++ below)
    (habove : importRows above = above.length) (hbelow : ∀ row ∈ below, isImport row = false)
    (hbegin : above.length < zone.beginLine) :
    ∃ frame : Frame, frame.Sound ∧ frame.text [] [] = text ∧
      ∀ row ∈ frame.rows, row ∈ text.rows := by
  have begins := around.begin_le
  have parts := around.rows
  rw [List.append_assoc] at parts
  obtain ⟨second, rfl, rfl⟩ : ∃ second, front = above ++ second ∧
      below = second ++ (last.toList.map (·.row false) ++ back) := by
    rcases List.append_eq_append_iff.1 (hrows.symm.trans parts) with h | ⟨extra, rfl, h⟩
    · exact h
    · have short : extra = [] := List.length_eq_zero_iff.1 (by simp at hbegin begins; omega)
      exact ⟨[], by simp [short], by simp [h, short]⟩
  have back_rows : Text.rows back.flatten = back := rows_flatten_of_rows_eq around.rows
  have whole : (above ++ second ++ last.toList.map (·.row false)).flatten ++ back.flatten = text := by
    rw [← List.flatten_append, ← around.rows, rows_flatten]
  let frame : Frame := ⟨true, above, second, last, back.flatten, trailing, zone.beginLine⟩
  have text_eq : frame.text [] [] = text := by
    simp only [Frame.text, Frame.front, Frame.tail, Frame.itemRows, Frame.items, frame, if_true,
      List.map_nil, List.append_nil, around.listing_last]
    exact whole
  refine ⟨frame, ?_, text_eq, ?_⟩
  · constructor
    · exact fun row hrow =>
        terminated_of_rows_eq around.rows around.back_ne_nil row (List.mem_append_left _ hrow)
    · exact around.tidy
    · simpa [Frame.front, frame] using around.styled
    · exact around.alone
    · refine fun _ => ⟨habove, hbegin, fun row hrow => hbelow row ?_⟩
      rcases List.mem_append.1 hrow with hrow | hrow
      · exact List.mem_append_left _ hrow
      · exact List.mem_append_right _ (List.mem_append_left _ hrow)
    · exact fun h => absurd h (by simp [frame])
    · intro row hrow
      rw [back_rows] at hrow
      exact hbelow row (List.mem_append_right _ (List.mem_append_right _ hrow))
    · rw [text_eq, located]
      have closing := around.closing
      simp only [Frame.front, frame, if_true, List.map_nil, List.append_nil, closing]
  · intro row hrow
    simp only [Frame.rows, frame, back_rows] at hrow
    rw [around.rows]
    exact hrow

theorem exists_lower_frame (around : Surrounds front last back trailing text zone)
    (orderly : Orderly text zone) (located : ExportZone.locate? text exportMarker = some zone)
    (hrows : text.rows = above ++ below) (habove : importRows above = above.length)
    (hbelow : ∀ row ∈ below, isImport row = false) (hend : zone.endLine < above.length) :
    ∃ frame : Frame, frame.Sound ∧ frame.text [] [] = text ∧
      ∀ row ∈ frame.rows, row ∈ text.rows := by
  have closing := around.closing
  obtain ⟨second, habove_eq, rfl⟩ : ∃ second,
      above = front ++ last.toList.map (·.row false) ++ second ∧ back = second ++ below := by
    rcases List.append_eq_append_iff.1 (around.rows.symm.trans hrows) with h | ⟨extra, h, -⟩
    · exact h
    · have long := congrArg List.length h
      simp at long
      omega
  have second_ne_nil : second ≠ [] := by
    rintro rfl
    have long := congrArg List.length habove_eq
    simp at long
    omega
  have below_rows : Text.rows below.flatten = below := rows_flatten_of_rows_eq hrows
  have terminated := terminated_imports orderly.last_import hrows habove
  have second_place : importRows second = second.length := by
    rw [habove_eq, importRows_append] at habove
    have short := importRows_le_length (front ++ last.toList.map (·.row false))
    have pos := List.length_pos_iff.2 second_ne_nil
    split at habove <;> simp only [List.length_append] at habove short <;> omega
  let frame : Frame := ⟨false, front, second, last, below.flatten, trailing, zone.beginLine⟩
  have text_eq : frame.text [] [] = text := by
    simp only [Frame.text, Frame.front, Frame.tail, Frame.itemRows, Frame.items, frame,
      Bool.false_eq_true, if_false, List.map_nil, List.append_nil, around.listing_last,
      List.flatten_nil, List.nil_append]
    rw [← rows_flatten text, around.rows]
    simp
  refine ⟨frame, ?_, text_eq, ?_⟩
  · constructor
    · intro row hrow
      apply terminated
      rw [habove_eq]
      rcases List.mem_append.1 hrow with hrow | hrow
      · exact List.mem_append_left _ (List.mem_append_left _ hrow)
      · exact List.mem_append_right _ hrow
    · exact around.tidy
    · simpa [Frame.front, frame] using around.styled
    · exact around.alone
    · exact fun h => absurd h (by simp [frame])
    · exact fun _ => ⟨second_place, second_ne_nil⟩
    · intro row hrow
      rw [below_rows] at hrow
      exact hbelow row hrow
    · rw [text_eq, located]
      simp only [Frame.front, frame, Bool.false_eq_true, if_false, closing]
  · intro row hrow
    simp only [Frame.rows, frame] at hrow
    rw [below_rows] at hrow
    rw [hrows, habove_eq]
    simp only [List.mem_append] at hrow ⊢
    tauto

end Surrounds

/-- A text in order has a frame, whose rows are rows of the text. -/
theorem exists_frame {text : Text} {zone : ExportZone} (orderly : Orderly text zone)
    (located : ExportZone.locate? text exportMarker = some zone) :
    ∃ frame : Frame, frame.Sound ∧ frame.text [] [] = text ∧
      ∀ row ∈ frame.rows, row ∈ text.rows := by
  obtain ⟨hbegin, hzone, hend⟩ := ExportZone.lines_of_locate? located
  obtain ⟨front, last, back, trailing, around⟩ := exists_surrounds orderly hzone hend
  obtain ⟨above, below, hrows, habove, hbelow⟩ := exists_importRows text.rows
  rcases Surrounds.imports_outside orderly hrows habove hbegin with upper | lower
  · exact around.exists_upper_frame located hrows habove hbelow upper
  · exact around.exists_lower_frame orderly located hrows habove hbelow lower

end ComponentForge.Index

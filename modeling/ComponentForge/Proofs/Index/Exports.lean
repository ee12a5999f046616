import ComponentForge.Proofs.Index.Items

/-!
# Edits of an export zone

On the items of a zone an insertion appends and a removal erases; the commas follow from the style
and the place in the list. The lemmas on rows treat one branch of an edit each, according to the
comma of the row above or of the row that goes.
-/

namespace ComponentForge.Index

open Text

/-- Where the zone of a text begins relative to the rows above the items: the comma style is the one
that an edit would find there. -/
def Styled (trailing : Bool) (front : List Text) (begin : Nat) (items : List Item) : Prop :=
  if trailing then begin < front.length ∧ ∀ row ∈ front.getLast?, commaEnded row
  else begin ≤ front.length ∧ (items = [] → begin = front.length)

section Insertion

variable {above : List Text} {entry : ExportEntry} {begin : Nat} {tail : Text}

theorem terminate_entryLine (entry : ExportEntry) :
    entryLine entry ++ ['\n'] = (Item.ofIdentifier entry.identifier).row false := rfl

theorem getElem?_last {row : Text} (h : above.getLast? = some row) (below : List Text) :
    (above ++ below)[above.length - 1]? = some row := by
  have pos : 0 < above.length := by
    apply List.length_pos_iff.2
    rintro rfl
    simp at h
  rw [List.getElem?_append_left (by omega), ← List.getLast?_eq_getElem?, h]

/-- The first entry of a zone gets no comma, and no entry of a zone without commas does. -/
theorem insertExport_of_plain (terminated : ∀ row ∈ above, Terminated row)
    (plain : begin = above.length ∨ entry.commaDelimited = false)
    (located : ExportZone.locate? (above.flatten ++ tail) entry.marker =
      some ⟨begin, above.length + 1⟩) :
    insertExport (above.flatten ++ tail) entry =
      .ok ((above ++ [(Item.ofIdentifier entry.identifier).row false]).flatten ++ tail) := by
  have alone : (ExportZone.isEmpty ⟨begin, above.length + 1⟩ || !entry.commaDelimited) = true := by
    rcases plain with rfl | undelimited <;> simp [ExportZone.isEmpty, *]
  simp only [insertExport, located, alone, if_true, Nat.add_sub_cancel]
  rw [insertLine_rows terminated, terminate_entryLine]
  simp

/-- Below a row that ends with a comma the new entry gets one too. -/
theorem insertExport_of_comma (terminated : ∀ row ∈ above, Terminated row)
    (delimited : entry.commaDelimited) (within : begin < above.length)
    (last : ∀ row ∈ above.getLast?, commaEnded row)
    (located : ExportZone.locate? (above.flatten ++ tail) entry.marker =
      some ⟨begin, above.length + 1⟩) :
    insertExport (above.flatten ++ tail) entry =
      .ok ((above ++ [(Item.ofIdentifier entry.identifier).row true]).flatten ++ tail) := by
  have hne : above ≠ [] := by rintro rfl; simp at within
  obtain ⟨row, hrow⟩ := Option.ne_none_iff_exists'.1 (mt List.getLast?_eq_none_iff.1 hne)
  have comma : row.splitBreak.1.trimEnd.endsWith ',' = true := last row hrow
  have inner : (above.length + 1 == begin + 1) = false := by simp; omega
  have number : above.length + 1 - 2 = above.length - 1 := by omega
  simp only [insertExport, located, ExportZone.isEmpty, inner, delimited, number,
    rows_append terminated, getElem?_last hrow, comma, Bool.not_true, Bool.or_false,
    Bool.false_eq_true, if_true, if_false, Nat.add_sub_cancel]
  rw [insertLine_rows terminated]
  simp [entryLine, Item.row, Item.ofIdentifier]

/-- Below a row without a comma the new entry gets none, and that row gets one. -/
theorem insertExport_of_bare {row : Text} (terminated : ∀ r ∈ above ++ [row], Terminated r)
    (bare : commaEnded row = false) (delimited : entry.commaDelimited) (within : begin ≤ above.length)
    (located : ExportZone.locate? ((above ++ [row]).flatten ++ tail) entry.marker =
      some ⟨begin, above.length + 2⟩) :
    insertExport ((above ++ [row]).flatten ++ tail) entry =
      .ok ((above ++ [withComma row, (Item.ofIdentifier entry.identifier).row false]).flatten ++
        tail) := by
  have redone : ∀ r ∈ above ++ [withComma row], Terminated r :=
    terminated_concat (fun r hr => terminated r (List.mem_append_left _ hr))
      (terminated_comma (terminated row (by simp)))
  have inner : (above.length + 2 == begin + 1) = false := by simp; omega
  have last : (above ++ [row] ++ Text.rows tail)[above.length]? = some row := by
    simp
  have replaced : (above ++ [row] ++ Text.rows tail).set above.length (withComma row) =
      above ++ [withComma row] ++ Text.rows tail := by
    simp
  have length : above.length + 2 - 1 = (above ++ [withComma row]).length := by simp
  rw [commaEnded] at bare
  rw [withComma] at redone replaced length
  simp only [insertExport, located, ExportZone.isEmpty, inner, delimited,
    rows_append terminated, Nat.add_sub_cancel, last, Bool.false_eq_true,
    Bool.not_true, Bool.or_false, if_false, bare, replaced]
  rw [List.flatten_append, rows_flatten, length, insertLine_rows redone, terminate_entryLine]
  simp [withComma]

/-- How the rows above the closing brace of a zone are redone for a new entry, and whether the entry
gets a comma. -/
inductive MakesRoom (entry : ExportEntry) (zone : ExportZone) :
    (above redone : List Text) → (comma : Bool) → Prop
  | plain {above : List Text} : zone.isEmpty ∨ entry.commaDelimited = false →
    MakesRoom entry zone above above false
  | trailing {front : List Text} {last body blanks ending : Text} : zone.isEmpty = false →
    entry.commaDelimited → RowParts last body blanks ending → body.endsWith ',' →
    MakesRoom entry zone (front ++ [last]) (front ++ [last]) true
  | comma {front : List Text} {last body blanks ending : Text} : zone.isEmpty = false →
    entry.commaDelimited → RowParts last body blanks ending → body.endsWith ',' = false →
    MakesRoom entry zone (front ++ [last]) (front ++ [body ++ ',' :: ending]) false

/-- An entry is put between the rows of a zone and its closing row. -/
theorem insertExport_rows {content : Text} {zone : ExportZone}
    (located : ExportZone.locate? content entry.marker = some zone) :
    ∃ above redone comma below, content.rows = above ++ below ∧ above.length + 1 = zone.endLine ∧
      (∀ row ∈ above, Terminated row) ∧ MakesRoom entry zone above redone comma ∧
      insertExport content entry = .ok
        ((redone ++ [(Item.ofIdentifier entry.identifier).row comma]).flatten ++ below.flatten) := by
  obtain ⟨begin_pos, begin_lt, end_le⟩ := ExportZone.lines_of_locate? located
  obtain ⟨begin, endLine⟩ := zone
  dsimp only at begin_pos begin_lt end_le ⊢
  obtain ⟨above, below, rows, length, hbelow⟩ : ∃ above below, content.rows = above ++ below ∧
      above.length + 1 = endLine ∧ below ≠ [] := by
    refine ⟨content.rows.take (endLine - 1), content.rows.drop (endLine - 1),
      (List.take_append_drop _ _).symm, ?_, ?_⟩
    · rw [List.length_take]
      omega
    · rw [Ne, List.drop_eq_nil_iff]
      omega
  have terminated := terminated_of_rows_eq rows hbelow
  rw [flatten_of_rows_eq rows, ← length] at located
  by_cases plain : ExportZone.isEmpty ⟨begin, endLine⟩ ∨ entry.commaDelimited = false
  · refine ⟨above, above, false, below, rows, length, terminated, .plain plain, ?_⟩
    rw [flatten_of_rows_eq rows]
    refine insertExport_of_plain terminated (plain.imp_left fun empty => ?_) located
    simp only [ExportZone.isEmpty, beq_iff_eq] at empty
    omega
  · simp only [not_or, Bool.not_eq_true, Bool.not_eq_false] at plain
    obtain ⟨inner, delimited⟩ := plain
    have within : begin < above.length := by
      simp only [ExportZone.isEmpty, beq_eq_false_iff_ne] at inner
      omega
    rcases List.eq_nil_or_concat above with rfl | ⟨front, last, rfl⟩
    · simp at within
    · rw [List.concat_eq_append] at *
      obtain ⟨blanks, parts⟩ := exists_rowParts last
      cases ended : last.splitBreak.1.trimEnd.endsWith ',' with
      | true =>
        refine ⟨_, _, true, below, rows, length, terminated, .trailing inner delimited parts ended, ?_⟩
        rw [flatten_of_rows_eq rows]
        exact insertExport_of_comma terminated delimited within (by simpa [commaEnded] using ended) located
      | false =>
        refine ⟨_, _, false, below, rows, length, terminated, .comma inner delimited parts ended, ?_⟩
        rw [List.length_append, List.length_singleton] at located within
        rw [flatten_of_rows_eq rows, insertExport_of_bare terminated ended delimited (by omega) located,
          parts.withComma_eq]
        simp

/-- An insertion fails only for want of a zone. -/
theorem insertExport_error_iff {content : Text} {fault : EditFault} :
    insertExport content entry = .error fault ↔
      ExportZone.locate? content entry.marker = none ∧ fault = .unlocatable entry.marker := by
  cases located : ExportZone.locate? content entry.marker with
  | none =>
    rw [insertExport, located]
    simp [eq_comm]
  | some zone =>
    obtain ⟨above, redone, comma, below, -, -, -, -, inserted⟩ := insertExport_rows located
    simp [inserted]

end Insertion

section Removal

variable {above : List Text} {entry : ExportEntry} {row tail : Text}

/-- What a removal sees of an entry: the text without the row, and its number. -/
theorem split?_entry {identifier : Text} (one : (Pattern.entry identifier).OneLine)
    (terminated : ∀ row ∈ above, Terminated row)
    (miss : ∀ row ∈ above, ¬ (Pattern.entry identifier).Hits row)
    (hrow : Terminated row) (hit : (Pattern.entry identifier).Hits row) (tail : Text) :
    ∃ after, (Pattern.entry identifier).split? (above.flatten ++ (row ++ tail)) =
        some (above.flatten, after) ∧ removeLineAt above.flatten after = above.flatten ++ tail := by
  obtain ⟨body, hbody, rfl⟩ := hrow
  rw [one.hits_terminated] at hit
  obtain ⟨before, after, whole, hsplit, start⟩ := one.split?_of_hits hbody hit tail
  obtain rfl := start identifier rfl
  obtain rfl : after = body := by simpa using whole
  refine ⟨after ++ '\n' :: tail, ?_, ?_⟩
  · have regroup : after ++ ['\n'] ++ tail = after ++ '\n' :: tail := by simp
    rw [regroup, one.split?_rows terminated miss, hsplit]
    simp
  · have removed := removeLineAt_rows terminated List.not_mem_nil hbody tail
    simpa using removed

theorem line_of_row (terminated : ∀ row ∈ above, Terminated row) (hrow : Terminated row)
    (tail : Text) :
    Text.lines (above.flatten ++ (row ++ tail)) =
      above.map line ++ line row :: Text.lines tail := by
  obtain ⟨body, hbody, rfl⟩ := hrow
  have regroup : body ++ ['\n'] ++ tail = body ++ '\n' :: tail := by simp
  rw [regroup, Text.lines, rows_append terminated, rows_line_append hbody]
  simp [Text.lines]

theorem getElem?_line (terminated : ∀ row ∈ above, Terminated row) (hrow : Terminated row)
    (tail : Text) :
    (Text.lines (above.flatten ++ (row ++ tail)))[above.length]? = some (line row) := by
  rw [line_of_row terminated hrow, ← List.length_map (f := line), List.getElem?_append_right (by simp)]
  simp

/-- A removed entry with a comma leaves the other rows alone. -/
theorem removeExport_of_comma (one : (Pattern.entry entry.identifier).OneLine)
    (terminated : ∀ row ∈ above, Terminated row)
    (miss : ∀ row ∈ above, ¬ (Pattern.entry entry.identifier).Hits row)
    (hrow : Terminated row) (hit : (Pattern.entry entry.identifier).Hits row)
    (comma : row.trimEnd.endsWith ',') :
    removeExport (above.flatten ++ (row ++ tail)) entry = .ok (some (above.flatten ++ tail)) := by
  obtain ⟨after, hsplit, removed⟩ := split?_entry one terminated miss hrow hit tail
  simp only [removeExport, hsplit, Position.after_line, count_flatten terminated,
    Nat.add_sub_cancel, getElem?_line terminated hrow, trimEnd_line, comma, removed, Bool.not_true,
    Bool.and_false, Bool.false_eq_true, if_false]

/-- So does the only entry of a zone. -/
theorem removeExport_of_only (one : (Pattern.entry entry.identifier).OneLine)
    (terminated : ∀ row ∈ above, Terminated row)
    (miss : ∀ row ∈ above, ¬ (Pattern.entry entry.identifier).Hits row)
    (hrow : Terminated row) (hit : (Pattern.entry entry.identifier).Hits row) {endLine : Nat}
    (located : ExportZone.locate? (above.flatten ++ (row ++ tail)) entry.marker =
      some ⟨above.length, endLine⟩) :
    removeExport (above.flatten ++ (row ++ tail)) entry = .ok (some (above.flatten ++ tail)) := by
  obtain ⟨after, hsplit, removed⟩ := split?_entry one terminated miss hrow hit tail
  have only : ¬ above.length + 1 < above.length + 1 := by omega
  simp only [removeExport, hsplit, Position.after_line, count_flatten terminated, removed, located,
    only, decide_false, Bool.and_false, Bool.false_and, Bool.false_eq_true, if_false]

/-- After the last entry without a comma goes, the row above it loses its comma. -/
theorem removeExport_of_bare {last : Text} {begin : Nat}
    (one : (Pattern.entry entry.identifier).OneLine)
    (terminated : ∀ r ∈ above ++ [last], Terminated r)
    (miss : ∀ r ∈ above ++ [last], ¬ (Pattern.entry entry.identifier).Hits r)
    (hrow : Terminated row) (hit : (Pattern.entry entry.identifier).Hits row)
    (bare : row.trimEnd.endsWith ',' = false) (comma : commaEnded last)
    (delimited : entry.commaDelimited) (within : begin ≤ above.length)
    (located : ExportZone.locate? ((above ++ [last]).flatten ++ (row ++ tail)) entry.marker =
      some ⟨begin, above.length + 3⟩) :
    removeExport ((above ++ [last]).flatten ++ (row ++ tail)) entry =
      .ok (some ((above ++ [withoutComma last]).flatten ++ tail)) := by
  obtain ⟨after, hsplit, removed⟩ := split?_entry one terminated miss hrow hit tail
  have number : (above ++ [last]).length = above.length + 1 := by simp
  have closes : (above.length + 3 == above.length + 1 + 1 + 1 &&
      decide (begin + 1 < above.length + 1 + 1)) = true := by simp; omega
  have found : (above ++ [last] ++ Text.rows tail)[above.length]? = some last := by
    simp
  have replaced : (above ++ [last] ++ Text.rows tail).set above.length (withoutComma last) =
      above ++ [withoutComma last] ++ Text.rows tail := by
    simp
  have line_at := getElem?_line terminated hrow tail
  rw [number] at line_at
  rw [commaEnded] at comma
  rw [withoutComma] at replaced
  simp only [removeExport, hsplit, Position.after_line, count_flatten terminated, number,
    Nat.add_sub_cancel, line_at, trimEnd_line, bare, removed, located, closes, delimited,
    rows_append terminated, found, comma, if_true, replaced, Bool.not_false, Bool.and_true,
    Nat.reduceSubDiff]
  rw [List.flatten_append, rows_flatten, withoutComma]

end Removal

section Edits

variable {front : List Text} {items : List Item} {entry : ExportEntry} {trailing : Bool}
  {begin : Nat} {tail : Text}

theorem listing_true (items : List Item) : listing true items = items.map (·.row true) := by
  have h : listing true (items ++ []) = items.map (·.row true) ++ listing true [] :=
    listing_append (Or.inl rfl) items
  simpa [listing] using h

/-- With trailing commas the new item is put below a comma. -/
theorem insertExport_listing_true (hfront : ∀ row ∈ front, Terminated row)
    (tidy : ∀ item ∈ items, item.Tidy) (delimited : entry.commaDelimited)
    (styled : Styled true front begin items)
    (located : ExportZone.locate? ((front ++ items.map (·.row true)).flatten ++ tail) entry.marker =
      some ⟨begin, front.length + items.length + 1⟩) :
    insertExport ((front ++ items.map (·.row true)).flatten ++ tail) entry =
      .ok ((front ++ items.map (·.row true) ++
        [(Item.ofIdentifier entry.identifier).row true]).flatten ++ tail) := by
  obtain ⟨within, last⟩ := styled
  have located_rows : ExportZone.locate?
      ((front ++ items.map (·.row true)).flatten ++ tail) entry.marker =
        some ⟨begin, (front ++ items.map (·.row true)).length + 1⟩ := by
    simpa using located
  refine insertExport_of_comma (terminated_commas hfront tidy) delimited ?_ ?_ located_rows
  · simp; omega
  · intro row hrow
    rcases List.eq_nil_or_concat items with rfl | ⟨before, item, rfl⟩
    · exact last row (by simpa using hrow)
    · obtain rfl : item.row true = row := by simpa using hrow
      exact (tidy item (by simp)).commaEnded_row true

/-- Without trailing commas the last item gets a comma before the new item is put below it. -/
theorem insertExport_listing_false (hfront : ∀ row ∈ front, Terminated row)
    (tidy : ∀ item ∈ items, item.Tidy) (delimited : entry.commaDelimited)
    (styled : Styled false front begin items)
    (located : ExportZone.locate? ((front ++ listing false items).flatten ++ tail) entry.marker =
      some ⟨begin, front.length + items.length + 1⟩) :
    insertExport ((front ++ listing false items).flatten ++ tail) entry =
      .ok ((front ++ items.map (·.row true) ++
        [(Item.ofIdentifier entry.identifier).row false]).flatten ++ tail) := by
  obtain ⟨within, empty⟩ := styled
  rcases List.eq_nil_or_concat items with rfl | ⟨before, item, rfl⟩
  · obtain rfl := empty rfl
    simp only [listing, List.map_nil, List.append_nil, List.length_nil, Nat.add_zero] at located ⊢
    exact insertExport_of_plain hfront (Or.inl rfl) located
  · rw [List.concat_eq_append] at tidy located ⊢
    rw [listing_concat, ← List.append_assoc] at located ⊢
    have before_tidy : ∀ i ∈ before, i.Tidy := fun i hi => tidy i (by simp [hi])
    have located_rows : ExportZone.locate?
        ((front ++ before.map (·.row true) ++ [item.row false]).flatten ++ tail) entry.marker =
          some ⟨begin, (front ++ before.map (·.row true)).length + 2⟩ := by
      simpa [Nat.add_assoc] using located
    have item_tidy := tidy item (by simp)
    rw [insertExport_of_bare (terminated_concat (terminated_commas hfront before_tidy)
      (item_tidy.terminated_row false)) (item_tidy.commaEnded_row false) delimited (by simp; omega)
      located_rows, item_tidy.withComma_row]
    simp

/-- An insertion puts a new item after the last one. -/
theorem insertExport_listing (hfront : ∀ row ∈ front, Terminated row)
    (tidy : ∀ item ∈ items, item.Tidy) (delimited : entry.commaDelimited)
    (styled : Styled trailing front begin items)
    (located : ExportZone.locate? ((front ++ listing trailing items).flatten ++ tail) entry.marker =
      some ⟨begin, front.length + items.length + 1⟩) :
    insertExport ((front ++ listing trailing items).flatten ++ tail) entry =
      .ok ((front ++ listing trailing (items ++ [.ofIdentifier entry.identifier])).flatten ++
        tail) := by
  rw [listing_concat, ← List.append_assoc]
  cases trailing with
  | true =>
    rw [listing_true] at located ⊢
    exact insertExport_listing_true hfront tidy delimited styled located
  | false => exact insertExport_listing_false hfront tidy delimited styled located

/-- The rows around an item, which has a comma unless it is the last one. -/
theorem flatten_around (item : Item) (before after : List Item) :
    (front ++ listing trailing (before ++ item :: after)).flatten ++ tail =
      (front ++ before.map (·.row true)).flatten ++
        (item.row (trailing || !after.isEmpty) ++ ((listing trailing after).flatten ++ tail)) := by
  rw [listing_append (Or.inr (by simp))]
  simp [listing]

section Entry

variable {before after : List Item} (word : IsWord entry.identifier)
  (hfront : ∀ row ∈ front, Terminated row)
  (miss_front : ∀ row ∈ front, ¬ (Pattern.entry entry.identifier).Hits row)
  (miss_before : ∀ item ∈ before, ¬ (Pattern.entry entry.identifier).Hits (item.row true))

include miss_front miss_before

theorem not_hits_commas : ∀ row ∈ front ++ before.map (·.row true),
    ¬ (Pattern.entry entry.identifier).Hits row :=
  List.forall_mem_append.2 ⟨miss_front, List.forall_mem_map.2 miss_before⟩

include word hfront

/-- The last item goes with the comma of the item above it. -/
theorem removeExport_last (tidy : ∀ item ∈ before, item.Tidy) (delimited : entry.commaDelimited)
    (styled : Styled false front begin before)
    (located : ExportZone.locate? ((front ++ before.map (·.row true)).flatten ++
      ((Item.ofIdentifier entry.identifier).row false ++ tail)) entry.marker =
        some ⟨begin, front.length + before.length + 2⟩) :
    removeExport ((front ++ before.map (·.row true)).flatten ++
      ((Item.ofIdentifier entry.identifier).row false ++ tail)) entry =
        .ok (some ((front ++ listing false before).flatten ++ tail)) := by
  have one := oneLine_entry word
  have miss := not_hits_commas miss_front miss_before
  have hrow := (tidy_ofIdentifier word).terminated_row false
  have hit := hits_ofIdentifier entry.identifier false
  obtain ⟨within, empty⟩ := styled
  rcases List.eq_nil_or_concat before with rfl | ⟨first, item, rfl⟩
  · obtain rfl := empty rfl
    simp only [List.map_nil, List.append_nil, listing] at miss located ⊢
    exact removeExport_of_only one hfront miss hrow hit located
  · rw [List.concat_eq_append] at *
    rw [List.map_append, List.map_singleton, ← List.append_assoc front] at miss located ⊢
    rw [listing_concat, ← List.append_assoc front]
    have first_tidy : ∀ i ∈ first, i.Tidy := fun i hi => tidy i (by simp [hi])
    have located_rows : ExportZone.locate?
        ((front ++ first.map (·.row true) ++ [item.row true]).flatten ++
          ((Item.ofIdentifier entry.identifier).row false ++ tail)) entry.marker =
        some ⟨begin, (front ++ first.map (·.row true)).length + 3⟩ := by
      simpa [Nat.add_assoc] using located
    have item_tidy := tidy item (by simp)
    rw [removeExport_of_bare one (terminated_concat (terminated_commas hfront first_tidy)
      (item_tidy.terminated_row true)) miss hrow hit ((tidy_ofIdentifier word).trimEnd_row false)
      (item_tidy.commaEnded_row true) delimited (by simp; omega) located_rows,
      item_tidy.withoutComma_row]

/-- A removal takes out the item of the identifier. The style must fit the items that stay: a zone
without trailing commas that gets empty has no row above the items that would keep a comma. -/
theorem removeExport_listing (tidy : ∀ item ∈ before ++ after, item.Tidy)
    (delimited : entry.commaDelimited) (styled : Styled trailing front begin (before ++ after))
    (located : ExportZone.locate?
      ((front ++ listing trailing (before ++ .ofIdentifier entry.identifier :: after)).flatten ++ tail)
      entry.marker = some ⟨begin, front.length + (before ++ after).length + 2⟩) :
    removeExport
      ((front ++ listing trailing (before ++ .ofIdentifier entry.identifier :: after)).flatten ++ tail)
      entry = .ok (some ((front ++ listing trailing (before ++ after)).flatten ++ tail)) := by
  have before_tidy : ∀ item ∈ before, item.Tidy := fun item hitem => tidy item (by simp [hitem])
  rw [flatten_around] at located ⊢
  by_cases comma : (trailing || !after.isEmpty) = true
  · have stays : listing trailing (before ++ after) =
        before.map (·.row true) ++ listing trailing after :=
      listing_append (by simpa using comma) before
    rw [comma, stays, removeExport_of_comma (oneLine_entry word)
      (terminated_commas hfront before_tidy) (not_hits_commas miss_front miss_before)
      ((tidy_ofIdentifier word).terminated_row true) (hits_ofIdentifier entry.identifier true)
      ((tidy_ofIdentifier word).trimEnd_row true)]
    simp
  · obtain ⟨rfl, rfl⟩ : trailing = false ∧ after = [] := by simpa using comma
    simp only [List.append_nil, listing, Bool.false_or, List.isEmpty_nil, Bool.not_true,
      List.flatten_nil, List.nil_append] at located styled ⊢
    exact removeExport_last word hfront miss_front miss_before before_tidy delimited styled located

end Entry

/-- An entry is put into a zone that is found. -/
theorem exists_zone_of_insertExport {text edited : Text} (h : insertExport text entry = .ok edited) :
    ∃ zone, ExportZone.locate? text entry.marker = some zone := by
  cases located : ExportZone.locate? text entry.marker with
  | some zone => exact ⟨zone, rfl⟩
  | none => simp [insertExport, located] at h

theorem removeExport_eq_none (word : IsWord entry.identifier) {text : Text}
    (miss : ∀ row ∈ text.rows, ¬ (Pattern.entry entry.identifier).Hits row) :
    removeExport text entry = .ok none := by
  rw [removeExport, (oneLine_entry word).split?_eq_none miss]

end Edits

end ComponentForge.Index

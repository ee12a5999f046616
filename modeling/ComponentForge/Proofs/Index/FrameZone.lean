import ComponentForge.Proofs.Index.Frame

/-!
# The zone of a frame

However many import lines and entries stand in a frame, the zone is found around the entries and the
comma style stays what it was.
-/

namespace ComponentForge.Index

open Text

theorem braceless_itemRow {x : Text} (braceless : Braceless x) (comma : Bool) :
    Braceless ((Item.ofIdentifier x).row comma) := by
  obtain ⟨hopen, hclose⟩ := braceless
  cases comma <;> simp [Braceless, Item.row, Item.ofIdentifier, hopen, hclose]

theorem braceless_ofIdentifier {x : Text} (hx : IsWord x) (comma : Bool) :
    Braceless ((Item.ofIdentifier x).row comma) :=
  braceless_itemRow ⟨hx.notMem (by decide), hx.notMem (by decide)⟩ comma

theorem exportMarker_eq : exportMarker = "export ".toList ++ '{' :: [] := rfl

/-- Import lines do not hide the zone. -/
theorem locate?_withImports {above lines : List Text} {below : Text}
    (habove : ∀ row ∈ above, Terminated row) (hlines : ∀ l ∈ lines, IsImportLine l) :
    ExportZone.locate? (withImports above lines below) exportMarker =
      (ExportZone.locate? (above.flatten ++ below) exportMarker).map
        (ExportZone.insertRows · above.length lines.length) := by
  have terminated : ∀ row ∈ lines.map terminate, Terminated row := by
    intro row hrow
    obtain ⟨l, hl, rfl⟩ := List.mem_map.1 hrow
    exact terminated_terminate (hlines l hl).oneLine
  have braceless : ∀ row ∈ lines.map terminate, Braceless row := by
    intro row hrow
    obtain ⟨l, hl, rfl⟩ := List.mem_map.1 hrow
    exact (hlines l hl).braceless.append (by simp [Braceless])
  rw [withImports, List.flatten_append, List.append_assoc, exportMarker_eq,
    ExportZone.locate?_insert habove terminated (by decide) (by decide) braceless, List.length_map]

theorem Frame.length_front (frame : Frame) (J : List Text) : (frame.front J).length =
    (frame.front []).length + (if frame.upper then J.length else 0) := by
  cases h : frame.upper <;> simp [Frame.front, h]
  omega

namespace Frame.Sound

variable {frame : Frame} {J K : List Text}

theorem begin_le (sound : frame.Sound) : frame.begin ≤ (frame.front []).length := by
  have styled := sound.styled
  cases h : frame.trailing <;> simp only [Styled, h, if_true, if_false, Bool.false_eq_true] at styled
  · exact styled.1
  · exact Nat.le_of_lt styled.1

/-- The comma that the last row gets leaves the zone where it is. -/
theorem locate?_comma (sound : frame.Sound) :
    ExportZone.locate? ((frame.front [] ++ frame.last.toList.map (·.row true)).flatten ++
      frame.tail []) exportMarker =
      some ⟨frame.begin, (frame.front []).length + frame.last.toList.length + 1⟩ := by
  have located := sound.located
  have terminated := sound.terminated_front (J := []) (by simp)
  have begins := sound.begin_le
  simp only [Frame.text, Frame.itemRows, Frame.items, List.map_nil, List.append_nil] at located
  cases hlast : frame.last with
  | none => simpa [hlast, listing] using located
  | some item =>
    have bare : frame.trailing = false := by
      rw [← Bool.not_eq_true]
      intro trailing
      simp [sound.alone trailing] at hlast
    have plain : (frame.front [] ++ listing false [item]).flatten ++ frame.tail [] =
        (frame.front []).flatten ++ (item.body ++ (item.ending ++ frame.tail [])) := by
      simp [listing, Item.row]
    have with_comma : (frame.front [] ++ [item.row true]).flatten ++ frame.tail [] =
        (frame.front []).flatten ++ (item.body ++ ([','] ++ (item.ending ++ frame.tail []))) := by
      simp [Item.row]
    simp only [hlast, bare, Option.toList_some, plain, exportMarker_eq] at located
    simp only [Option.toList_some, List.map_singleton, with_comma, exportMarker_eq]
    obtain ⟨found, marked⟩ :=
      ExportZone.marker_of_beginLine_le (by decide) (by decide) terminated located begins
    rw [ExportZone.locate?_insert_inline (by decide) (by decide) terminated marked
      (by simp [Braceless]) (by decide)]
    exact located

/-- Entries move the end of the zone only. -/
theorem locate?_items (sound : frame.Sound) (hK : ∀ x ∈ K, IsWord x) :
    ExportZone.locate? (frame.text [] K) exportMarker =
      some ⟨frame.begin, (frame.front []).length + (frame.items K).length + 1⟩ := by
  by_cases hne : K = []
  · subst hne
    simpa [Frame.items] using sound.located
  · have entries_tidy : ∀ item ∈ K.map Item.ofIdentifier, item.Tidy := by
      intro item hitem
      obtain ⟨x, hx, rfl⟩ := List.mem_map.1 hitem
      exact tidy_ofIdentifier (hK x hx)
    have terminated := terminated_commas (sound.terminated_front (J := []) (by simp))
      fun item hitem => sound.tidy item (Option.mem_toList.1 hitem)
    have braceless : ∀ row ∈ listing frame.trailing (K.map .ofIdentifier), Braceless row := by
      intro row hrow
      obtain ⟨item, hitem, comma, rfl⟩ := mem_listing hrow
      obtain ⟨x, hx, rfl⟩ := List.mem_map.1 hitem
      exact braceless_ofIdentifier (hK x hx) comma
    have regroup : frame.text [] K =
        (frame.front [] ++ frame.last.toList.map (·.row true)).flatten ++
          ((listing frame.trailing (K.map .ofIdentifier)).flatten ++ frame.tail []) := by
      rw [Frame.text, Frame.itemRows, Frame.items, listing_append (Or.inr (by simpa using hne))]
      simp
    have located := sound.locate?_comma
    have begins := sound.begin_le
    rw [exportMarker_eq] at located
    rw [regroup, exportMarker_eq, ExportZone.locate?_insert terminated
      (terminated_listing entries_tidy) (by decide) (by decide) braceless, located]
    simp only [Option.map_some, ExportZone.insertRows, length_listing, List.length_append,
      List.length_map, Frame.items]
    rw [if_neg (by omega), if_pos (by omega)]
    congr 2
    omega

/-- The import lines move the zone if they stand above it. -/
theorem locate?_text (sound : frame.Sound) (hJ : ∀ j ∈ J, IsImportLine j)
    (hK : ∀ x ∈ K, IsWord x) :
    ExportZone.locate? (frame.text J K) exportMarker =
      some ⟨frame.begin + (if frame.upper then J.length else 0),
        (frame.front J).length + (frame.items K).length + 1⟩ := by
  have located := sound.locate?_items hK
  have begins := sound.begin_le
  have alone : frame.text [] K = (frame.above K).flatten ++ frame.below K := by
    rw [Frame.text_eq_withImports]
    simp [withImports]
  rw [alone] at located
  rw [Frame.text_eq_withImports, locate?_withImports (sound.terminated_above hK) hJ, located]
  simp only [Option.map_some, ExportZone.insertRows]
  cases h : frame.upper with
  | true =>
    have place := (sound.upper_place h).2.1
    simp only [Frame.above, Frame.front, h, if_true, List.length_append, List.length_map,
      List.length_nil, List.map_nil, Nat.add_zero] at begins ⊢
    rw [if_pos place, if_pos (by omega)]
    congr 2
    omega
  | false =>
    have pos := List.length_pos_iff.2 (sound.lower_place h).2
    simp only [Frame.above, Frame.front, Frame.itemRows, h, if_false, Bool.false_eq_true,
      List.length_append, length_listing] at begins ⊢
    rw [if_neg (by omega), if_neg (by omega)]
    rfl

/-- The comma style is what it was without the edits. -/
theorem styled_items (sound : frame.Sound) (J K : List Text) :
    Styled frame.trailing (frame.front J)
      (frame.begin + (if frame.upper then J.length else 0)) (frame.items K) := by
  have styled := sound.styled
  have length := frame.length_front J
  cases htrailing : frame.trailing with
  | false =>
    simp only [Styled, htrailing, Bool.false_eq_true, if_false] at styled ⊢
    refine ⟨by omega, fun hitems => ?_⟩
    have nothing : frame.last.toList = [] := (List.append_eq_nil_iff.1 hitems).1
    have := styled.2 nothing
    omega
  | true =>
    simp only [Styled, htrailing, if_true] at styled ⊢
    refine ⟨by omega, ?_⟩
    cases h : frame.upper with
    | false => simpa [Frame.front, h] using styled.2
    | true =>
      have place := (sound.upper_place h).2.1
      have within := styled.1
      simp only [Frame.front, h, if_true, List.length_append, List.map_nil, List.length_nil]
        at within
      have hne : frame.second ≠ [] := List.length_pos_iff.1 (by omega)
      have same : ∀ upper : List Text, (upper ++ frame.second).getLast? = frame.second.getLast? := by
        intro upper
        rw [List.getLast?_append, List.getLast?_eq_some_getLast hne]
        rfl
      have last := styled.2
      simp only [Frame.front, h, if_true, same] at last ⊢
      exact last

end Frame.Sound

end ComponentForge.Index

import ComponentForge.Proofs.Index.Insertion

/-!
# The rows of a zone

A zone cuts the rows of its text into three parts: those up to the marker, those strictly inside and
those from the closing brace on. Edits of the part inside leave the marker where it is, so that the
zone of the new text is known without another search.
-/

namespace ComponentForge

open Index Text

namespace ExportZone

/-- The rows up to that of the marker. -/
def above (zone : ExportZone) (content : Text) : List Text :=
  content.rows.take zone.beginLine

/-- The rows strictly between the marker and the closing brace. -/
def inner (zone : ExportZone) (content : Text) : List Text :=
  (content.rows.take (zone.endLine - 1)).drop zone.beginLine

/-- The rows from that of the closing brace on. -/
def below (zone : ExportZone) (content : Text) : List Text :=
  content.rows.drop (zone.endLine - 1)

variable {content marker : Text} {zone : ExportZone} {above below : List Text} {row : Text}

/-- The three parts of a zone that is found make up the text. -/
theorem rows_eq (located : locate? content marker = some zone) :
    content.rows = zone.above content ++ zone.inner content ++ zone.below content ∧
      (zone.above content).length = zone.beginLine ∧
      zone.beginLine + (zone.inner content).length + 1 = zone.endLine ∧ zone.below content ≠ [] := by
  obtain ⟨begin_pos, begin_lt, end_le⟩ := lines_of_locate? located
  have first : (content.rows.take (zone.endLine - 1)).take zone.beginLine = zone.above content := by
    rw [List.take_take, above, Nat.min_eq_left (by omega)]
  refine ⟨?_, ?_, ?_, ?_⟩
  · rw [← first, inner, below, List.take_append_drop, List.take_append_drop]
  · rw [above, List.length_take]
    omega
  · rw [inner, List.length_drop, List.length_take]
    omega
  · intro none
    have length := congrArg List.length none
    rw [below, List.length_drop, List.length_nil] at length
    omega

theorem mem_inner_iff : row ∈ zone.inner content ↔
    ∃ i, content.rows[i]? = some row ∧ zone.beginLine ≤ i ∧ i + 1 < zone.endLine := by
  rw [inner, List.mem_iff_getElem?]
  constructor
  · rintro ⟨i, hi⟩
    rw [List.getElem?_drop, List.getElem?_take] at hi
    split at hi
    · exact ⟨zone.beginLine + i, hi, by omega, by omega⟩
    · cases hi
  · rintro ⟨i, hi, begins, ends⟩
    refine ⟨i - zone.beginLine, ?_⟩
    have place : zone.beginLine + (i - zone.beginLine) = i := by omega
    rw [List.getElem?_drop, place, List.getElem?_take, if_pos (by omega), hi]

/-- A row without braces shifts the lines of a zone, and does not decide whether there is one. -/
theorem locate?_row (single : '\n' ∉ marker) (terminated : ∀ r ∈ above, Terminated r)
    (row_terminated : Terminated row) (braceless : Braceless row) {text : Text}
    (located : locate? text marker = some zone) (rest : Text) :
    locate? (above.flatten ++ (row ++ rest)) marker =
      (locate? (above.flatten ++ rest) marker).map (insertRows · above.length 1) := by
  obtain ⟨opening, more, rfl, hbrace⟩ := exists_opening located
  have put := locate?_insert terminated (List.forall_mem_singleton.2 row_terminated) hbrace single
    (List.forall_mem_singleton.2 braceless) rest
  rwa [List.flatten_singleton] at put

/-- A row that is put inside or just above the closing brace lets the zone close a line later. -/
theorem locate?_withRow (single : '\n' ∉ marker) (terminated : ∀ r ∈ above, Terminated r)
    (row_terminated : Terminated row) (braceless : Braceless row) {rest : Text}
    (located : locate? (above.flatten ++ rest) marker = some zone)
    (begins : zone.beginLine ≤ above.length) (ends : above.length < zone.endLine) :
    locate? (above.flatten ++ (row ++ rest)) marker = some ⟨zone.beginLine, zone.endLine + 1⟩ := by
  rw [locate?_row single terminated row_terminated braceless located, located, Option.map_some,
    insertRows, if_neg (by omega), if_pos ends]

/-- A row inside goes, and the zone closes a line earlier. -/
theorem locate?_withoutRow (single : '\n' ∉ marker) (terminated : ∀ r ∈ above, Terminated r)
    (row_terminated : Terminated row) (braceless : Braceless row) {rest : Text}
    (located : locate? (above.flatten ++ (row ++ rest)) marker = some zone)
    (begins : zone.beginLine ≤ above.length) (ends : above.length + 1 < zone.endLine) :
    locate? (above.flatten ++ rest) marker = some ⟨zone.beginLine, zone.endLine - 1⟩ := by
  have put := locate?_row single terminated row_terminated braceless located rest
  obtain ⟨old, hold, rfl⟩ := Option.map_eq_some_iff.1 (put.symm.trans located)
  obtain ⟨begin, finish⟩ := old
  simp only [insertRows] at begins ends ⊢
  rw [hold]
  split at begins
  · omega
  · split at ends
    · rw [if_neg (by assumption), if_pos (by assumption), Nat.add_sub_cancel]
    · omega

end ExportZone

end ComponentForge

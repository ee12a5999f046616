import ComponentForge.Proofs.Index.Exports

/-!
# Removals shorten the text

A line that is removed held a match, so it was not empty, and the comma that may go with it does not
grow the text. A removal that reports a new text therefore never reports the old one, whatever further
removals come after it, and it finds all the rows that it looks for.
-/

namespace ComponentForge

namespace Index

open Text

section Removal

variable {content before after new : Text} {pattern : Pattern} {entry : ExportEntry}

theorem ne_nil_of_split? (visible : ¬ pattern.Hits [])
    (h : pattern.split? content = some (before, after)) : after ≠ [] := by
  rintro rfl
  exact visible (Pattern.hits_of_split? h)

/-- The line of a match goes with at least what follows the place of the match in it. -/
theorem length_removeLineAt_lt (before : Text) (hafter : after ≠ []) :
    (removeLineAt before after).length < (before ++ after).length := by
  have kept := congrArg List.length (splitEnd_append (· != '\n') before)
  have pos := List.length_pos_iff.2 hafter
  rw [List.length_append] at kept
  rw [List.length_append, removeLineAt]
  cases broken : after.cut? ['\n'] with
  | none =>
    rw [List.length_dropLast]
    omega
  | some parts =>
    obtain ⟨line, below⟩ := parts
    have shorter : below.length < after.length := by
      obtain ⟨⟨front, rest⟩, split, cut⟩ := Option.bind_eq_some_iff.1 broken
      obtain ⟨tail, follows, same⟩ := Option.bind_eq_some_iff.1 cut
      obtain ⟨-, rfl⟩ := Prod.mk.inj (Option.some.inj same)
      have whole := congrArg List.length (append_of_splitBefore? split)
      rw [after?_eq_some_iff.1 follows] at whole
      simp only [List.length_append, List.length_singleton] at whole
      omega
    rw [List.length_append]
    omega

theorem length_lt_of_removeLine? (visible : ¬ pattern.Hits [])
    (h : removeLine? content pattern = some new) : new.length < content.length := by
  obtain ⟨⟨before, after⟩, split, rfl⟩ := Option.map_eq_some_iff.1 h
  rw [← Pattern.append_of_split? split]
  exact length_removeLineAt_lt before (ne_nil_of_split? visible split)

theorem length_flatten_set_le {rows : List Text} {i : Nat} {row row' : Text} (h : rows[i]? = some row)
    (shorter : row'.length ≤ row.length) : (rows.set i row').flatten.length ≤ rows.flatten.length := by
  induction rows generalizing i with
  | nil => simp
  | cons first more ih =>
    cases i with
    | zero =>
      obtain rfl : first = row := by simpa using h
      simpa using shorter
    | succ i => simpa using ih (by simpa using h)

theorem length_withoutComma_le (row : Text) : (withoutComma row).length ≤ row.length := by
  obtain ⟨blanks, parts⟩ := exists_rowParts row
  have whole := congrArg List.length parts.whole
  rw [withoutComma]
  simp only [List.length_append, List.length_dropLast] at whole ⊢
  omega

/-- Below a match that stands above the closing row of a zone there is a line feed, so the rows above
the match stay rows when its line goes. -/
theorem lt_length_rows_removeLineAt {zone : ExportZone}
    (located : ExportZone.locate? (before ++ after) entry.marker = some zone)
    (closes : zone.endLine = (Position.after before).line + 1)
    (inside : zone.beginLine + 1 < (Position.after before).line) :
    (Position.after before).line - 2 < (removeLineAt before after).rows.length := by
  have bounds := ExportZone.lines_of_locate? located
  have rows_le := (length_rows_bounds (before ++ after)).2
  rw [List.count_append] at rows_le
  rw [Position.after_line] at closes inside ⊢
  obtain ⟨line, below, rfl, unbroken⟩ :=
    List.eq_append_cons_of_mem (List.count_pos_iff.1 (show 0 < after.count '\n' by omega))
  have ending : (splitEnd (· != '\n') before).2.count '\n' = 0 :=
    List.count_eq_zero_of_not_mem fun fed => by simpa using splitEnd_ending '\n' fed
  have kept := congrArg (List.count '\n') (splitEnd_append (· != '\n') before)
  rw [List.count_append, ending] at kept
  have le_rows := (length_rows_bounds (removeLineAt before (line ++ '\n' :: below))).1
  rw [removeLineAt, cut?_char unbroken] at le_rows ⊢
  dsimp only at le_rows ⊢
  rw [List.count_append] at le_rows
  omega

/-- A removal ends without a fault: the line of the match goes, and at most a comma more. -/
theorem exists_removeExport (split : (Pattern.entry entry.identifier).split? content = some (before, after)) :
    ∃ new, removeExport content entry = .ok (some new) ∧
      new.length ≤ (removeLineAt before after).length := by
  rw [removeExport, split]
  cases located : ExportZone.locate? content entry.marker with
  | none => exact ⟨_, rfl, Nat.le_refl _⟩
  | some zone =>
    dsimp only
    split_ifs with closes
    · -- the row above the entry is one of the zone
      simp only [Bool.and_eq_true, beq_iff_eq, decide_eq_true_eq] at closes
      rw [← Pattern.append_of_split? split] at located
      have within := lt_length_rows_removeLineAt located closes.1.1.1 closes.1.1.2
      rw [List.getElem?_eq_getElem within]
      dsimp only
      split_ifs
      · have shorter := length_flatten_set_le (List.getElem?_eq_getElem within)
          (length_withoutComma_le _)
        rw [rows_flatten] at shorter
        exact ⟨_, rfl, shorter⟩
      · exact ⟨_, rfl, Nat.le_refl _⟩
    · exact ⟨_, rfl, Nat.le_refl _⟩

theorem removeExport_eq_ok (content : Text) (entry : ExportEntry) :
    ∃ edited?, removeExport content entry = .ok edited? ∧
      ∀ new ∈ edited?, entry.identifier ≠ [] → new.length < content.length := by
  cases split : (Pattern.entry entry.identifier).split? content with
  | none => exact ⟨none, by rw [removeExport, split], by simp⟩
  | some found =>
    obtain ⟨before, after⟩ := found
    obtain ⟨new, removed, shorter⟩ := exists_removeExport split
    refine ⟨some new, removed, fun other mem visible => ?_⟩
    obtain rfl := Option.some.inj mem
    have hafter := ne_nil_of_split? (by simpa [Pattern.hits_nil_iff] using visible) split
    rw [← Pattern.append_of_split? split]
    exact Nat.lt_of_le_of_lt shorter (length_removeLineAt_lt before hafter)

end Removal

end Index

namespace IndexPatch

open Index

variable {patch : IndexPatch}

/-- The patch has an import line, and an identifier if it has an entry. -/
structure Visible (patch : IndexPatch) : Prop where
  line : patch.importLine ≠ []
  identifier : ∀ entry ∈ patch.exportEntry, entry.identifier ≠ []

/-- Taking a patch back ends without a fault, and a new text is shorter than the old one. -/
theorem revert?_eq_ok (patch : IndexPatch) (content : Text) :
    ∃ edited?, patch.revert? content = .ok edited? ∧
      ∀ new ∈ edited?, patch.Visible → new.length < content.length := by
  have removed : ∀ new ∈ removeLine? content (.literal patch.importLine), patch.Visible →
      new.length < content.length := fun new mem visible =>
    length_lt_of_removeLine? (by simpa [Pattern.hits_nil_iff] using visible.line) mem
  cases hentry : patch.exportEntry with
  | none =>
    refine ⟨_, ?_, removed⟩
    rw [revert?, hentry]
  | some entry =>
    obtain ⟨edited?, erased, shorter⟩ :=
      removeExport_eq_ok ((removeLine? content (.literal patch.importLine)).getD content) entry
    refine ⟨edited?.or (removeLine? content (.literal patch.importLine)), ?_, fun new mem visible => ?_⟩
    · simp only [revert?, hentry, erased]
      rfl
    · cases edited? with
      | none => exact removed new (by simpa using mem) visible
      | some edited =>
        obtain rfl : edited = new := by simpa using mem
        have lt := shorter edited rfl (visible.identifier entry hentry)
        cases line : removeLine? content (.literal patch.importLine) with
        | none => simpa [line] using lt
        | some without =>
          rw [line, Option.getD_some] at lt
          exact lt.trans (removed without line visible)

end IndexPatch

end ComponentForge

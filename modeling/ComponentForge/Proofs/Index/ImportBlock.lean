import ComponentForge.Proofs.Index.Framing

/-!
# The block of inserted imports

The first of several import statements finds its place below the last one of the text, and each
further one finds it below the one before. So they stand as one block in the order in which they
were inserted, whatever the rest of the text is: without imports the block is at the top, and if the
last import has no line feed it gets one before the block.
-/

namespace ComponentForge

/-- The text with a line feed at its end, unless it is empty. -/
def Text.closed (text : Text) : Text :=
  if text.isEmpty || text.endsWith '\n' then text else text ++ ['\n']

theorem Text.closed_flatten {above : List Text} (h : ∀ row ∈ above, Terminated row) :
    closed above.flatten = above.flatten := by
  by_cases habove : above = []
  · simp [habove, closed]
  · simp [closed, endsWith, getLast?_flatten h habove]

theorem Text.closed_of_row {row : Text} (hne : row ≠ []) (hrow : '\n' ∉ row) (above : Text) :
    closed (above ++ row) = above ++ terminate row := by
  have unfed : (above ++ row).endsWith '\n' = false := by
    rw [← Bool.not_eq_true]
    intro fed
    exact hrow (List.mem_of_getLast? (by simpa [endsWith, List.getLast?_append, hne] using fed))
  simp [closed, unfed, hne, terminate]

namespace Index

open Text

variable {content : Text} {above : List Text} {lines more : List Text}

/-- The first of the lines makes a place for all of them: rows that end with an import statement and
have their line feeds. -/
theorem exists_place {below : List Text} (hrows : content.rows = above ++ below)
    (habove : importRows above = above.length) (hbelow : ∀ row ∈ below, isImport row = false)
    (line : Text) : ∃ front, ImportPlace front below.flatten ∧
      front.flatten = closed above.flatten ∧
      insertImport content line = withImports front [line] below.flatten := by
  have none_below : ∀ row ∈ Text.rows below.flatten, isImport row = false := by
    rw [rows_flatten_of_rows_eq hrows]
    exact hbelow
  have number : importRows content.rows = above.length := by
    rw [hrows, importRows_append, if_pos (importRows_eq_zero_iff.2 hbelow), habove]
  rw [insertImport, number]
  cases putAt_insertLine content line above.length with
  | between split terminated length new =>
    rename_i upper lower
    rw [hrows, List.length_append, Nat.min_eq_left (Nat.le_add_right _ _)] at length
    obtain ⟨rfl, rfl⟩ := List.append_inj (split.symm.trans hrows) length
    refine ⟨upper, ⟨terminated, habove, none_below⟩, (closed_flatten terminated).symm, ?_⟩
    rw [new]
    simp [withImports, terminate]
  | below split unfed beyond new =>
    -- the last import statement is the last row and lacks its line feed
    rename_i upper row
    obtain rfl : below = [] := by
      rw [hrows, List.length_append] at beyond
      exact List.length_eq_zero_iff.1 (by omega)
    rw [List.append_nil] at hrows
    obtain rfl := hrows.symm.trans split
    have hne : row ≠ [] := ne_nil_of_mem_rows (show row ∈ content.rows by simp [split])
    have statement : isImport (terminate row) :=
      isImport_append (isImport_getLast? habove (by simp)) ['\n']
    have last : importRows (upper ++ [terminate row]) = (upper ++ [terminate row]).length := by
      simp [importRows_append, importRows, statement]
    have ending : closed (upper ++ [row]).flatten = (upper ++ [terminate row]).flatten := by
      rw [List.flatten_append, List.flatten_append, List.flatten_singleton, List.flatten_singleton,
        closed_of_row hne unfed]
    refine ⟨upper ++ [terminate row], ⟨?_, last, none_below⟩, ending.symm, ?_⟩
    · exact terminated_concat (terminated_of_rows_eq split (by simp)) ⟨row, unfed, rfl⟩
    · have whole : content = (upper ++ [row]).flatten := by rw [← split, rows_flatten]
      rw [new, whole]
      simp [withImports, terminate]

/-- Each further line stands below the ones before it. -/
theorem foldl_insertImport_block {below : Text} (place : ImportPlace above below)
    (statements : ∀ line ∈ lines ++ more, '\n' ∉ line ∧ isImport line) :
    more.foldl insertImport (withImports above lines below) =
      withImports above (lines ++ more) below := by
  induction more using List.reverseRecOn with
  | nil => simp
  | append_singleton more line ih =>
    rw [← List.append_assoc] at statements ⊢
    have sooner : ∀ l ∈ lines ++ more, '\n' ∉ l ∧ isImport l := fun l hl =>
      statements l (List.mem_append_left _ hl)
    rw [List.foldl_append, ih sooner, List.foldl_cons, List.foldl_nil,
      insertImport_block place (fun l hl => (sooner l hl).1) fun l hl => (sooner l hl).2]

/-- Import statements that are inserted one after the other form one block, in their order, below
the last import statement that was there before; no other line changes, but that statement gets the
line feed that it may lack. -/
theorem foldl_insertImport (content : Text)
    (statements : ∀ line ∈ lines, '\n' ∉ line ∧ isImport line) :
    ∃ above below, content.rows = above ++ below ∧
      (∀ row ∈ above.getLast?, isImport row) ∧ (∀ row ∈ below, isImport row = false) ∧
      lines.foldl insertImport content =
        if lines = [] then content
        else closed above.flatten ++ (lines.map terminate).flatten ++ below.flatten := by
  obtain ⟨above, below, hrows, habove, hbelow⟩ := exists_importRows content.rows
  refine ⟨above, below, hrows, fun row => isImport_getLast? habove, hbelow, ?_⟩
  cases lines with
  | nil => rfl
  | cons line more =>
    obtain ⟨front, place, hfront, first⟩ := exists_place hrows habove hbelow line
    rw [List.foldl_cons, first, foldl_insertImport_block place (by simpa using statements),
      if_neg (by simp), withImports, List.flatten_append, hfront, List.singleton_append]

/-- A zone above an import with a carriage return and one without a line feed. -/
def lowImports : Text :=
  "export \x7b\r\n\x7d;\r\nimport a from 'a';\r\nimport b from 'b';".toList

theorem foldl_insertImport_lowImports : ∃ above below, lowImports.rows = above ++ below ∧
    (∀ row ∈ above.getLast?, isImport row) ∧ (∀ row ∈ below, isImport row = false) ∧
      ["import d from 'd';".toList, "import c".toList].foldl insertImport lowImports =
        closed above.flatten ++ "import d from 'd';\nimport c\n".toList ++ below.flatten :=
  foldl_insertImport lowImports (by decide +kernel)

end Index

end ComponentForge

import ComponentForge.Proofs.Generator.PlanOrder
import ComponentForge.Proofs.Import.Specifier

/-!
# Specifiers of an index file

An import line that is put into an index file brings its specifiers along, and an export entry brings
none. What stood in the file before keeps its specifiers, also in a row that gets its line feed or a
comma.
-/

namespace ComponentForge

open Index Specifier Text

namespace Index

variable {content new line x row : Text}

theorem relatives_insertLine (content line : Text) (number : Nat) :
    (relatives (insertLine content number line)).Perm (relatives content ++ relatives line) := by
  cases putAt_insertLine content line number with
  | @between above below hrows terminated _ new =>
    have regroup : line ++ ['\n'] ++ below.flatten = line ++ '\n' :: below.flatten := by simp
    rw [new, flatten_of_rows_eq hrows, relatives_flatten terminated, relatives_flatten terminated,
      regroup, relatives_line, List.append_assoc]
    exact List.perm_append_comm.append_left _
  | below _ _ _ new =>
    have last := relatives_line line []
    rw [new, relatives_line, last]
    exact .of_eq (by simp [relatives, quotations, quotationsFrom])

theorem relatives_comma (row : Text) :
    relatives (row.splitBreak.1.trimEnd ++ ',' :: row.splitBreak.2) = relatives row := by
  obtain ⟨blanks, parts⟩ := exists_rowParts row
  have unquoted : '\'' ∉ row.splitBreak.2 := fun quote => by simpa using parts.breaks _ quote
  have unspaced : '\'' ∉ blanks := fun quote => absurd (parts.blank _ quote) (by decide)
  conv => rhs; rw [parts.whole]
  rw [relatives_append_of_notMem (by simp [unquoted]),
    relatives_append_of_notMem (by simp [unquoted, unspaced])]

theorem relatives_entryRow (word : IsWord x) (comma : Bool) :
    relatives ((Item.ofIdentifier x).row comma) = [] := by
  have quote : '\'' ∉ x := word.notMem (by decide)
  refine relatives_of_notMem ?_
  cases comma <;> simp [Item.row, Item.ofIdentifier, quote]

theorem relatives_insertExport (word : IsWord x) (h : insertExport content (entry x) = .ok new) :
    relatives new = relatives content := by
  obtain ⟨zone, -, entered⟩ := entered_of_insertExport h
  have listed := fun comma => relatives_terminated ((tidy_ofIdentifier word).terminated_row comma)
  cases entered with
  | @plain above below comma hrows _ terminated =>
    rw [flatten_of_rows_eq hrows, relatives_flatten terminated, relatives_flatten terminated, listed,
      relatives_entryRow word, List.nil_append]
  | @comma above below row hrows _ _ terminated _ =>
    have above_terminated : ∀ other ∈ above, Terminated other := fun other mem =>
      terminated other (List.mem_append_left _ mem)
    have row_terminated := terminated row (by simp)
    rw [flatten_of_rows_eq hrows, List.flatten_cons, relatives_flatten above_terminated,
      relatives_flatten above_terminated, relatives_terminated (terminated_comma row_terminated),
      relatives_terminated row_terminated, relatives_comma, listed, relatives_entryRow word,
      List.nil_append]

end Index

namespace IndexPatch

variable {patch : IndexPatch} {content new specifier : Text}

/-- A specifier that there are more of after an addition stands in the import line. -/
theorem Adds.mem_relatives (h : patch.Adds content new)
    (more : (relatives content).count specifier < (relatives new).count specifier) :
    specifier ∈ relatives patch.importLine := by
  by_contra absent
  have kept : (relatives new).count specifier = (relatives content).count specifier := by
    refine h.preserves (P := fun text =>
      (relatives text).count specifier = (relatives content).count specifier) ?_ ?_ rfl
    · intro text same
      rw [insertImport, (relatives_insertLine text _ _).count_eq, List.count_append,
        List.count_eq_zero_of_not_mem absent, Nat.add_zero, same]
    · intro text edited x word inserted same
      rw [relatives_insertExport word inserted, same]
  omega

end IndexPatch

end ComponentForge

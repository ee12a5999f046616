import ComponentForge.Proofs.Generator.Names
import ComponentForge.Proofs.Index.Insertion

/-!
# Patches added to any text

An addition changes nothing of a text that lists the patch, and any other text grows by a line. Where
no import statement stands in the export zone, what a text lists goes on being listed when other
patches are added, so that a patch is added once.
-/

namespace ComponentForge

open Index Text

/-- The patch has an import line, and its entry is one of the export zone. -/
structure IndexPatch.Regular (patch : IndexPatch) : Prop where
  line : IsImportLine patch.importLine
  entries : ∀ listed ∈ patch.exportEntry, ∃ x, IsWord x ∧ listed = entry x

/-- The text has the import line and the entry of the patch. -/
structure IndexPatch.ListedIn (patch : IndexPatch) (content : Text) : Prop where
  line : hasLine content patch.importLine
  entries : ∀ listed ∈ patch.exportEntry,
    ∃ row ∈ content.rows, (Pattern.entry listed.identifier).Hits row

namespace Index

theorem IsModulePatch.regular {patch : IndexPatch} (h : IsModulePatch patch) : patch.Regular := by
  obtain ⟨line, x, hline, hx, rfl⟩ := h
  refine ⟨hline.isImportLine, fun listed mem => ⟨x, hx, ?_⟩⟩
  simpa [eq_comm] using mem

theorem IsStoryImport.regular {line : Text} (h : IsStoryImport line) :
    IndexPatch.Regular ⟨line, none⟩ :=
  ⟨h.isImportLine, by simp⟩

variable {content new line x : Text} {zone : ExportZone}

theorem hasLine_iff : hasLine content line ↔ ∃ row ∈ content.rows, row.trimEnd = line := by
  simp [hasLine, Text.lines, trimEnd_line]

theorem isImport_of_trimEnd {row : Text} (isLine : IsImportLine line) (h : row.trimEnd = line) :
    isImport row := by
  have whole := Text.splitEnd_append isBlank row
  have lead := isImport_append isLine.statement (Text.splitEnd isBlank row).2
  rw [← h] at lead
  exact whole ▸ lead

theorem hasLine_of_carries (isLine : IsImportLine line) (carries : Carries content new)
    (h : hasLine content line) : hasLine new line := by
  rw [hasLine_iff] at h ⊢
  obtain ⟨row, mem, trimmed⟩ := h
  obtain ⟨row', mem', redone⟩ := carries row mem
  refine ⟨row', mem', ?_⟩
  cases redone with
  | same => exact trimmed
  | broken => rw [trimEnd_append_blank _ (by simp [isBlank_lineFeed]), trimmed]
  | comma _ free _ =>
    rw [isImport_of_trimEnd isLine trimmed] at free
    cases free

theorem hits_of_carries (word : IsWord x) (carries : Carries content new)
    (h : ∃ row ∈ content.rows, (Pattern.entry x).Hits row) :
    ∃ row ∈ new.rows, (Pattern.entry x).Hits row := by
  obtain ⟨row, mem, hit⟩ := h
  obtain ⟨row', mem', redone⟩ := carries row mem
  refine ⟨row', mem', ?_⟩
  cases redone with
  | same => exact hit
  | broken => exact ((oneLine_entry word).hits_terminated row).2 hit
  | comma terminated _ bare => exact hits_comma word terminated bare hit

/-- An import line is put in, and every row is kept but for a line feed. -/
theorem insertLine_carries (oneLine : '\n' ∉ line) (number : Nat) :
    terminate line ∈ (insertLine content number line).rows ∧
      Carries content (insertLine content number line) ∧
      content.count '\n' < (insertLine content number line).count '\n' := by
  cases putAt_insertLine content line number with
  | @between above below hrows terminated _ new =>
    have rows := rows_put (rows_flatten_of_rows_eq hrows) terminated (terminated_terminate oneLine)
    rw [terminate, ← new] at rows
    refine ⟨by rw [rows, terminate]; simp, fun row mem => ⟨row, ?_, .same⟩, ?_⟩
    · rw [hrows] at mem
      rw [rows]
      rcases List.mem_append.1 mem with mem | mem
      · exact List.mem_append_left _ mem
      · exact List.mem_append_right _ (List.mem_cons_of_mem _ mem)
    · rw [new, flatten_of_rows_eq hrows]
      simp only [List.count_append, List.count_singleton_self]
      omega
  | @below above row hrows last _ new =>
    have rows : Text.rows (content ++ '\n' :: (line ++ ['\n'])) =
        above ++ [row ++ ['\n'], terminate line] := by
      rw [rows_append_line hrows last]
      have single := rows_line_append oneLine []
      simp only [Text.rows] at single
      rw [single, terminate]
    rw [← new] at rows
    refine ⟨by rw [rows]; simp, fun other mem => ?_, ?_⟩
    · rw [hrows] at mem
      rw [rows]
      rcases List.mem_append.1 mem with mem | mem
      · exact ⟨other, List.mem_append_left _ mem, .same⟩
      · rw [List.mem_singleton.1 mem]
        exact ⟨_, List.mem_append_right _ (by simp), .broken⟩
    · rw [new]
      simp only [List.count_append, List.count_cons_self]
      omega

/-- An entry is put in, and every row is kept but for a comma. -/
theorem insertExport_carries (word : IsWord x) (free : ImportFree content)
    (h : insertExport content (entry x) = .ok new) :
    (∃ row ∈ new.rows, (Pattern.entry x).Hits row) ∧ Carries content new := by
  obtain ⟨zone, located, entered⟩ := entered_of_insertExport h
  cases entered with
  | @plain above below comma hrows _ terminated =>
    rw [Carries, rows_put (rows_flatten_of_rows_eq hrows) terminated
      ((tidy_ofIdentifier word).terminated_row comma)]
    refine ⟨⟨_, by simp, hits_ofIdentifier x comma⟩, fun row mem => ⟨row, ?_, .same⟩⟩
    rw [hrows] at mem
    rcases List.mem_append.1 mem with mem | mem
    · exact List.mem_append_left _ mem
    · exact List.mem_append_right _ (List.mem_cons_of_mem _ mem)
  | @comma above below row hrows ends within terminated bare =>
    have comma_terminated := terminated_comma (terminated row (by simp))
    have above_terminated : ∀ other ∈ above, Terminated other := fun other mem =>
      terminated other (List.mem_append_left _ mem)
    have rows := rows_put (rows_below hrows)
      (terminated_concat above_terminated comma_terminated)
      ((tidy_ofIdentifier word).terminated_row false)
    have regroup : (above ++ [row.splitBreak.1.trimEnd ++ ',' :: row.splitBreak.2]).flatten ++
        ((Item.ofIdentifier x).row false ++ below.flatten) = above.flatten ++
          ((row.splitBreak.1.trimEnd ++ ',' :: row.splitBreak.2) ++
            ((Item.ofIdentifier x).row false ++ below.flatten)) := by simp
    rw [regroup] at rows
    rw [Carries, rows]
    refine ⟨⟨_, by simp, hits_ofIdentifier x false⟩, fun other mem => ?_⟩
    have no_import : isImport row = false :=
      importFree_iff.1 free zone located above.length row (by simp [hrows]) (by omega) (by omega)
    rw [hrows] at mem
    rcases List.mem_append.1 mem with mem | mem
    · exact ⟨other, by simp [mem], .same⟩
    · rcases List.mem_cons.1 mem with rfl | mem
      · exact ⟨_, by simp, .comma (terminated other (by simp)) no_import bare⟩
      · exact ⟨other, by simp [mem], .same⟩

theorem count_of_terminated {row : Text} (h : Terminated row) : row.count '\n' = 1 := by
  obtain ⟨body, hbody, rfl⟩ := h
  simp [List.count_eq_zero_of_not_mem hbody]

theorem count_lt_of_insertExport (word : IsWord x) (h : insertExport content (entry x) = .ok new) :
    content.count '\n' < new.count '\n' := by
  obtain ⟨zone, -, entered⟩ := entered_of_insertExport h
  cases entered with
  | @plain above below comma hrows _ _ =>
    have one := count_of_terminated ((tidy_ofIdentifier word).terminated_row comma)
    rw [flatten_of_rows_eq hrows]
    simp only [List.count_append]
    omega
  | @comma above below row hrows _ _ terminated _ =>
    have one := count_of_terminated ((tidy_ofIdentifier word).terminated_row false)
    have row_one := count_of_terminated (terminated row (by simp))
    have comma_one := count_of_terminated (terminated_comma (terminated row (by simp)))
    rw [flatten_of_rows_eq hrows, List.flatten_cons]
    simp only [List.count_append] at comma_one ⊢
    omega

end Index

namespace IndexPatch

variable {patch other : IndexPatch} {content new : Text}

/-- The import line and then the entry, each if it is lacking. -/
inductive Adds (patch : IndexPatch) (content : Text) : Text → Prop
  | listed : patch.ListedIn content → Adds patch content content
  | line : hasLine content patch.importLine = false →
    (∀ listed ∈ patch.exportEntry, ∃ row ∈ (insertImport content patch.importLine).rows,
      (Pattern.entry listed.identifier).Hits row) →
    Adds patch content (insertImport content patch.importLine)
  | entry {x new : Text} : hasLine content patch.importLine → patch.exportEntry = some (entry x) →
    IsWord x → insertExport content (entry x) = .ok new → Adds patch content new
  | both {x new : Text} : hasLine content patch.importLine = false →
    patch.exportEntry = some (entry x) → IsWord x →
    insertExport (insertImport content patch.importLine) (entry x) = .ok new → Adds patch content new

theorem Regular.isSome_split? (regular : patch.Regular) {listed : ExportEntry}
    (mem : listed ∈ patch.exportEntry) (content : Text) :
    ((Pattern.entry listed.identifier).split? content).isSome ↔
      ∃ row ∈ content.rows, (Pattern.entry listed.identifier).Hits row := by
  obtain ⟨x, word, rfl⟩ := regular.entries listed mem
  rw [← not_iff_not, Bool.not_eq_true, Option.isSome_eq_false_iff, Option.isNone_iff_eq_none,
    entry_identifier, (oneLine_entry word).split?_eq_none_iff]
  simp

/-- A text that lists the patch stays as it is. -/
theorem apply_of_listedIn (regular : patch.Regular) (h : patch.ListedIn content) :
    patch.apply content = .ok content := by
  rw [apply, if_pos h.line]
  cases hentry : patch.exportEntry with
  | none => rfl
  | some listed =>
    have mem : listed ∈ patch.exportEntry := hentry
    exact if_pos ((regular.isSome_split? mem content).2 (h.entries listed mem))

theorem adds_of_apply (regular : patch.Regular) (h : patch.apply content = .ok new) :
    patch.Adds content new := by
  rw [apply] at h
  cases present : hasLine content patch.importLine with
  | true =>
    rw [if_pos present] at h
    cases hentry : patch.exportEntry with
    | none =>
      rw [hentry] at h
      obtain rfl := Except.ok.inj h
      exact .listed ⟨present, by simp [hentry]⟩
    | some listed =>
      have mem : listed ∈ patch.exportEntry := hentry
      have found := regular.isSome_split? mem content
      obtain ⟨x, word, rfl⟩ := regular.entries listed mem
      rw [hentry] at h
      dsimp only at h
      split at h
      · rename_i hit
        obtain rfl := Except.ok.inj h
        refine .listed ⟨present, fun other mem' => ?_⟩
        obtain rfl : entry x = other := by simpa [hentry] using mem'
        exact found.1 hit
      · exact .entry present hentry word h
  | false =>
    rw [if_neg (by simp [present])] at h
    cases hentry : patch.exportEntry with
    | none =>
      rw [hentry] at h
      obtain rfl := Except.ok.inj h
      exact .line present (by simp [hentry])
    | some listed =>
      have mem : listed ∈ patch.exportEntry := hentry
      have found := regular.isSome_split? mem (insertImport content patch.importLine)
      obtain ⟨x, word, rfl⟩ := regular.entries listed mem
      rw [hentry] at h
      dsimp only at h
      split at h
      · rename_i hit
        obtain rfl := Except.ok.inj h
        refine .line present fun other mem' => ?_
        obtain rfl : entry x = other := by simpa [hentry] using mem'
        exact found.1 hit
      · exact .both present hentry word h

/-- What both insertions preserve an addition preserves. -/
theorem Adds.preserves {P : Text → Prop} (h : patch.Adds content new)
    (on_import : ∀ text, P text → P (insertImport text patch.importLine))
    (on_export : ∀ text edited x, IsWord x → insertExport text (Index.entry x) = .ok edited →
      P text → P edited) (start : P content) : P new := by
  cases h with
  | listed _ => exact start
  | line _ _ => exact on_import _ start
  | entry _ _ word inserted => exact on_export _ _ _ word inserted start
  | both _ _ word inserted => exact on_export _ _ _ word inserted (on_import _ start)

theorem Adds.importFree (regular : patch.Regular) (h : patch.Adds content new)
    (free : ImportFree content) : ImportFree new :=
  h.preserves (fun _ => importFree_insertImport regular.line)
    (fun _ _ _ word inserted free => importFree_insertExport word free inserted) free

/-- What the text lists it goes on listing. Only an entry that is added needs a zone without imports. -/
theorem Adds.listedIn (regular : patch.Regular) (regular' : other.Regular)
    (h : patch.Adds content new) (free : patch.exportEntry.isSome → ImportFree content)
    (listed : other.ListedIn content) : other.ListedIn new := by
  have carried : ∀ {text edited : Text}, Carries text edited → other.ListedIn text →
      other.ListedIn edited := by
    intro text edited carries listed
    refine ⟨hasLine_of_carries regular'.line carries listed.line, fun entry mem => ?_⟩
    have hit := listed.entries entry mem
    obtain ⟨x, word, rfl⟩ := regular'.entries entry mem
    exact hits_of_carries word carries hit
  have imported : other.ListedIn (insertImport content patch.importLine) :=
    carried (insertLine_carries regular.line.oneLine _).2.1 listed
  cases h with
  | listed _ => exact listed
  | line _ _ => exact imported
  | entry _ hentry word inserted =>
    exact carried (insertExport_carries word (free (by simp [hentry])) inserted).2 listed
  | both _ hentry word inserted =>
    have free' := importFree_insertImport regular.line (free (by simp [hentry]))
    exact carried (insertExport_carries word free' inserted).2 imported

theorem hasLine_insertImport (regular : patch.Regular) (content : Text) :
    hasLine (insertImport content patch.importLine) patch.importLine := by
  rw [hasLine_iff]
  refine ⟨_, (insertLine_carries regular.line.oneLine _).1, ?_⟩
  rw [terminate, trimEnd_append_blank _ (by simp [isBlank_lineFeed]), regular.line.trimmed]

/-- After an addition the text lists the patch. -/
theorem Adds.self_listedIn (regular : patch.Regular) (h : patch.Adds content new)
    (free : patch.exportEntry.isSome → ImportFree content) : patch.ListedIn new := by
  have entered : ∀ {text edited x}, ImportFree text → hasLine text patch.importLine →
      patch.exportEntry = some (Index.entry x) → IsWord x →
      insertExport text (Index.entry x) = .ok edited → patch.ListedIn edited := by
    intro text edited x free present hentry word inserted
    obtain ⟨hit, carries⟩ := insertExport_carries word free inserted
    refine ⟨hasLine_of_carries regular.line carries present, fun listed mem => ?_⟩
    obtain rfl : Index.entry x = listed := by simpa [hentry] using mem
    exact hit
  have imported := hasLine_insertImport regular content
  cases h with
  | listed listed => exact listed
  | line _ hits => exact ⟨imported, hits⟩
  | entry present hentry word inserted =>
    exact entered (free (by simp [hentry])) present hentry word inserted
  | both _ hentry word inserted =>
    have free' := importFree_insertImport regular.line (free (by simp [hentry]))
    exact entered free' imported hentry word inserted

/-- An addition changes nothing, or the text grows by a line. -/
theorem Adds.count_lt (regular : patch.Regular) (h : patch.Adds content new) :
    new = content ∨ content.count '\n' < new.count '\n' := by
  have imported : content.count '\n' < (insertImport content patch.importLine).count '\n' :=
    (insertLine_carries regular.line.oneLine _).2.2
  cases h with
  | listed _ => exact Or.inl rfl
  | line _ _ => exact Or.inr imported
  | entry _ _ word inserted => exact Or.inr (count_lt_of_insertExport word inserted)
  | both _ _ word inserted => exact Or.inr (imported.trans (count_lt_of_insertExport word inserted))

end IndexPatch

end ComponentForge

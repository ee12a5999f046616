import ComponentForge.Proofs.Generator.PatchOrder

/-!
# Patches that come and go

An index file in which patches can be applied and taken back in any order holds, at each time, the
text of the patches that are applied to it. Every index file that has nothing of the patches is one,
unless its zone is not found, in which case none of them can be applied.
-/

namespace ComponentForge

open Index IndexPatch

/-- A text for each list of applied patches, with the edits that lead from one to another. -/
structure Reversible (patches : List IndexPatch) (text : List IndexPatch → Text) : Prop where
  apply : ∀ done : List IndexPatch, done.Nodup → done ⊆ patches → ∀ patch ∈ patches,
    patch.apply (text done) = .ok (text (if patch ∈ done then done else done ++ [patch]))
  revert : ∀ done : List IndexPatch, done.Nodup → done ⊆ patches → ∀ patch ∈ patches,
    patch.revert? (text done) = .ok (if patch ∈ done then some (text (done.erase patch)) else none)

/-- The text has nothing of the patches, its last import statement ends with a line break, and its
zone, if it has one, is in order. -/
structure Clear (patches : List IndexPatch) (content : Text) : Prop where
  absent_line : ∀ patch ∈ patches, ¬ patch.importLine <:+: content
  absent_entry : ∀ patch ∈ patches, ∀ entry ∈ patch.exportEntry,
    (Pattern.entry entry.identifier).split? content = none
  last_import : ∀ row ∈ (content.rows.filter isImport).getLast?, row.endsWith '\n'
  orderly : ∀ zone, ExportZone.locate? content exportMarker = some zone → Orderly content zone

/-- The patches have different import lines and different identifiers. -/
structure Apart (patches : List IndexPatch) : Prop where
  line_inj : ∀ patch ∈ patches, ∀ other ∈ patches, patch.importLine = other.importLine → patch = other
  identifier_inj : ∀ patch ∈ patches, ∀ other ∈ patches, ∀ entry ∈ patch.exportEntry,
    ∀ entry' ∈ other.exportEntry, entry.identifier = entry'.identifier → patch = other

variable {patches done : List IndexPatch} {patch : IndexPatch} {content edited line x : Text}

namespace Apart

theorem notMem_lines (apart : Apart patches) (sub : done ⊆ patches) (hpatch : patch ∈ patches)
    (hdone : patch ∉ done) : patch.importLine ∉ lines done := by
  intro h
  obtain ⟨other, hother, same⟩ := List.mem_map.1 h
  exact hdone (apart.line_inj other (sub hother) patch hpatch same ▸ hother)

theorem notMem_identifiers (apart : Apart patches) (sub : done ⊆ patches) (hpatch : patch ∈ patches)
    (hdone : patch ∉ done) : ∀ entry ∈ patch.exportEntry, entry.identifier ∉ identifiers done := by
  intro entry hentry h
  obtain ⟨other, hother, same⟩ := List.mem_filterMap.1 h
  obtain ⟨entry', hentry', same⟩ := Option.map_eq_some_iff.1 same
  exact hdone (apart.identifier_inj other (sub hother) patch hpatch entry' hentry' entry hentry same ▸
    hother)

theorem nodup_lines (apart : Apart patches) (nodup : done.Nodup) (sub : done ⊆ patches) :
    (lines done).Nodup :=
  List.Nodup.map_on (fun _ h _ h' => apart.line_inj _ (sub h) _ (sub h')) nodup

theorem nodup_identifiers (apart : Apart patches) (nodup : done.Nodup) (sub : done ⊆ patches) :
    (identifiers done).Nodup := by
  induction done with
  | nil => exact List.nodup_nil
  | cons patch rest ih =>
    obtain ⟨hpatch, nodup⟩ := List.nodup_cons.1 nodup
    have sub_rest : rest ⊆ patches := fun p hp => sub (List.mem_cons_of_mem patch hp)
    have absent := apart.notMem_identifiers sub_rest (sub List.mem_cons_self) hpatch
    rw [identifiers, List.filterMap_cons]
    split
    · exact ih nodup sub_rest
    · rename_i found
      obtain ⟨entry, hentry, rfl⟩ := Option.map_eq_some_iff.1 found
      exact List.nodup_cons.2 ⟨absent entry hentry, ih nodup sub_rest⟩

end Apart

/-- Patches that the frame lacks come and go in it. -/
theorem Index.Frame.Sound.reversible {frame : Frame} (sound : frame.Sound)
    (all : ∀ patch ∈ patches, IsModulePatch patch) (apart : Apart patches)
    (lacks : ∀ patch ∈ patches, frame.LacksPatch patch) :
    Reversible patches frame.patched where
  apply done nodup sub patch hpatch := by
    have built := all patch hpatch
    have done_all : ∀ p ∈ done, IsModulePatch p := fun p hp => all p (sub hp)
    by_cases hdone : patch ∈ done
    · obtain ⟨line, x, himport, hx, rfl⟩ := built
      have in_lines : line ∈ lines done := List.mem_map.2 ⟨_, hdone, rfl⟩
      have in_identifiers : x ∈ identifiers done := List.mem_filterMap.2 ⟨_, hdone, rfl⟩
      have applied := sound.apply_text
        (fun j hj => (isModuleImport_of_mem_lines done_all hj).isImportLine)
        (fun y hy => isWord_of_mem_identifiers done_all hy) himport.isImportLine hx
        (lacks _ hpatch (entry x) rfl)
        (fun other hother => himport.eq_of_infix (isModuleImport_of_mem_lines done_all hother))
      rw [appendNew_of_mem in_lines, appendNew_of_mem in_identifiers] at applied
      rw [if_pos hdone]
      exact applied
    · rw [if_neg hdone]
      exact sound.apply_patched done_all built (lacks patch hpatch)
        (apart.notMem_lines sub hpatch hdone) (apart.notMem_identifiers sub hpatch hdone)
  revert done nodup sub patch hpatch := by
    have done_all : ∀ p ∈ done, IsModulePatch p := fun p hp => all p (sub hp)
    by_cases hdone : patch ∈ done
    · obtain ⟨before, after, rfl, hbefore⟩ := List.eq_append_cons_of_mem hdone
      rw [if_pos hdone, List.erase_append_right _ hbefore, List.erase_cons_head]
      exact sound.revert?_patched done_all (lacks patch hpatch) (apart.nodup_lines nodup sub)
        (apart.nodup_identifiers nodup sub)
    · have no_line := apart.notMem_lines sub hpatch hdone
      have no_identifier := apart.notMem_identifiers sub hpatch hdone
      obtain ⟨line, x, himport, hx, rfl⟩ := all patch hpatch
      have reverted := sound.revert?_text
        (fun j hj => (isModuleImport_of_mem_lines done_all hj).isImportLine)
        (fun y hy => isWord_of_mem_identifiers done_all hy) himport.isImportLine hx
        (lacks _ hpatch (entry x) rfl)
        (fun other hother => himport.eq_of_infix (isModuleImport_of_mem_lines done_all hother))
      have no_part : ¬ (line ∈ lines done ∨ x ∈ identifiers done) :=
        not_or.2 ⟨no_line, no_identifier (entry x) rfl⟩
      rw [if_neg no_part] at reverted
      rw [if_neg hdone]
      exact reverted

section Stories

variable (all : ∀ patch ∈ patches, ∃ line, IsStoryImport line ∧ patch = ⟨line, none⟩)
  (sub : done ⊆ patches)

include all sub

theorem isStoryImport_of_mem_lines : ∀ l ∈ lines done, IsStoryImport l := by
  intro l hl
  obtain ⟨patch, hpatch, rfl⟩ := List.mem_map.1 hl
  obtain ⟨line, hline, rfl⟩ := all patch (sub hpatch)
  exact hline

theorem mem_lines_iff : line ∈ lines done ↔ ⟨line, none⟩ ∈ done := by
  constructor
  · intro h
    obtain ⟨patch, hpatch, rfl⟩ := List.mem_map.1 h
    obtain ⟨other, -, rfl⟩ := all patch (sub hpatch)
    exact hpatch
  · exact fun h => List.mem_map.2 ⟨_, h, rfl⟩

theorem lines_erase (hdone : ⟨line, none⟩ ∈ done) :
    lines (done.erase ⟨line, none⟩) = (lines done).erase line := by
  obtain ⟨before, after, rfl, hbefore⟩ := List.eq_append_cons_of_mem hdone
  have sub_before : before ⊆ patches := fun p hp => sub (List.mem_append_left _ hp)
  have split : lines (before ++ ⟨line, none⟩ :: after) = lines before ++ line :: lines after := by
    simp [lines]
  rw [List.erase_append_right _ hbefore, List.erase_cons_head, split, lines_append,
    erase_append_cons (mt (mem_lines_iff all sub_before).1 hbefore)]

end Stories

/-- Story lines come and go at the place of the import lines. -/
theorem Index.ImportPlace.reversible {above : List Text} {below : Text}
    (place : ImportPlace above below)
    (all : ∀ patch ∈ patches, ∃ line, IsStoryImport line ∧ patch = ⟨line, none⟩)
    (absent : ∀ patch ∈ patches, (∀ row ∈ above, ¬ patch.importLine <:+: row) ∧
      ∀ row ∈ below.rows, ¬ patch.importLine <:+: row) :
    Reversible patches fun done => withImports above (lines done) below := by
  have foreign : ∀ {done : List IndexPatch}, done ⊆ patches → ∀ {line : Text},
      ⟨line, none⟩ ∈ patches → IsStoryImport line → Foreign line above (lines done) below := by
    intro done sub line hpatch hline
    exact ⟨(absent _ hpatch).1, (absent _ hpatch).2,
      fun other hother => hline.eq_of_infix (isStoryImport_of_mem_lines all sub other hother)⟩
  constructor
  · intro done nodup sub patch hpatch
    obtain ⟨line, hline, rfl⟩ := all patch hpatch
    have are_lines : ∀ l ∈ lines done, IsImportLine l := fun l hl =>
      (isStoryImport_of_mem_lines all sub l hl).isImportLine
    have has := (hasLine_withImports place.terminated are_lines hline.isImportLine
      (foreign sub hpatch hline)).trans (mem_lines_iff all sub)
    by_cases hdone : ⟨line, none⟩ ∈ done
    · rw [IndexPatch.apply, if_pos (has.2 hdone), if_pos hdone]
    · rw [IndexPatch.apply, if_neg (mt has.1 hdone), if_neg hdone,
        insertImport_withImports place are_lines, lines_append]
      rfl
  · intro done nodup sub patch hpatch
    obtain ⟨line, hline, rfl⟩ := all patch hpatch
    have are_lines : ∀ l ∈ lines done, IsImportLine l := fun l hl =>
      (isStoryImport_of_mem_lines all sub l hl).isImportLine
    have removed := removeLine?_withImports place.terminated are_lines hline.isImportLine
      (foreign sub hpatch hline)
    rw [IndexPatch.revert?, removed]
    by_cases hdone : ⟨line, none⟩ ∈ done
    · rw [if_pos ((mem_lines_iff all sub).2 hdone), if_pos hdone, lines_erase all sub hdone]
    · rw [if_neg (mt (mem_lines_iff all sub).1 hdone), if_neg hdone]

/-- The place of the import lines of a text. -/
theorem Index.exists_importPlace
    (broken : ∀ row ∈ (content.rows.filter isImport).getLast?, row.endsWith '\n') :
    ∃ above below, ImportPlace above below ∧ withImports above [] below = content ∧
      content.rows = above ++ below.rows := by
  obtain ⟨above, below, hrows, habove, hbelow⟩ := exists_importRows content.rows
  have below_rows : Text.rows below.flatten = below := Text.rows_flatten_of_rows_eq hrows
  refine ⟨above, below.flatten, ⟨terminated_imports broken hrows habove, habove, ?_⟩, ?_, ?_⟩
  · rwa [below_rows]
  · rw [withImports, List.map_nil, List.append_nil, ← List.flatten_append, ← hrows,
      Text.rows_flatten]
  · rw [below_rows, hrows]

theorem not_infix_of_mem_rows (absent : ¬ line <:+: content) {row : Text} (hrow : row ∈ content.rows) :
    ¬ line <:+: row := by
  intro inside
  apply absent
  rw [← Text.rows_flatten content]
  exact inside.trans (List.infix_of_mem_flatten hrow)

namespace Clear

/-- Nothing can be taken back. -/
theorem lacks (clear : Clear patches content)
    (all : ∀ patch ∈ patches, (Pattern.literal patch.importLine).OneLine) :
    ∀ patch ∈ patches, patch.revert? content = .ok none := by
  intro patch hpatch
  have absent := clear.absent_line patch hpatch
  have no_line : removeLine? content (.literal patch.importLine) = none :=
    removeLine?_eq_none (all patch hpatch) fun row hrow => not_infix_of_mem_rows absent hrow
  rw [IndexPatch.revert?, no_line]
  cases hentry : patch.exportEntry with
  | none => rfl
  | some entry =>
    have no_entry := clear.absent_entry patch hpatch entry hentry
    simp only [Option.getD_none, removeExport, no_entry]
    rfl

/-- A patch that is applied finds the zone below or above its own line. -/
theorem located (clear : Clear patches content) (hpatch : patch ∈ patches)
    (built : IsModulePatch patch) (applied : patch.apply content = .ok edited) :
    ∃ zone, ExportZone.locate? content exportMarker = some zone := by
  obtain ⟨above, below, place, rfl, hrows⟩ := exists_importPlace clear.last_import
  have absent_line := clear.absent_line patch hpatch
  have absent_entry := clear.absent_entry patch hpatch
  obtain ⟨line, x, himport, hx, rfl⟩ := built
  have imports : ∀ l ∈ [line], IsImportLine l := fun l hl =>
    List.mem_singleton.1 hl ▸ himport.isImportLine
  have no_entry := (oneLine_entry hx).split?_eq_none_iff.1 (absent_entry (entry x) rfl)
  have has : hasLine (withImports above [] below) line = false :=
    hasLine_eq_false fun row hrow => not_infix_of_mem_rows absent_line hrow
  have longer : insertImport (withImports above [] below) line = withImports above [line] below :=
    insertImport_withImports place (by simp)
  have still_no_entry : (Pattern.entry x).split? (withImports above [line] below) = none := by
    apply (oneLine_entry hx).split?_eq_none
    intro row hrow
    rw [rows_withImports place.terminated imports, List.mem_append, List.mem_append] at hrow
    rcases hrow with (hrow | hrow) | hrow
    · exact no_entry row (hrows ▸ List.mem_append_left _ hrow)
    · obtain rfl : row = Text.terminate line := by simpa using hrow
      exact not_hits_terminate hx himport.isImportLine
    · exact no_entry row (hrows ▸ List.mem_append_right _ hrow)
  have inserted : insertExport (withImports above [line] below) (entry x) = .ok edited := by
    simpa [IndexPatch.apply, has, longer, still_no_entry] using applied
  obtain ⟨zone, located⟩ := exists_zone_of_insertExport inserted
  change ExportZone.locate? _ exportMarker = _ at located
  rw [locate?_withImports place.terminated imports] at located
  obtain ⟨zone', h, -⟩ := Option.map_eq_some_iff.1 located
  exact ⟨zone', by simpa [withImports] using h⟩

/-- If a patch of a component or a container can be applied, all of them come and go. -/
theorem reversible (clear : Clear patches content) (all : ∀ patch ∈ patches, IsModulePatch patch)
    (apart : Apart patches) (hpatch : patch ∈ patches) (applied : patch.apply content = .ok edited) :
    ∃ text : List IndexPatch → Text, text [] = content ∧ Reversible patches text := by
  obtain ⟨zone, located⟩ := clear.located hpatch (all patch hpatch) applied
  obtain ⟨frame, sound, text_eq, rows_of_text⟩ := exists_frame (clear.orderly zone located) located
  refine ⟨frame.patched, text_eq, sound.reversible all apart fun p hp => ?_⟩
  exact Frame.lacksPatch_of_absent (all p hp) rows_of_text (clear.absent_line p hp)
    (clear.absent_entry p hp)

theorem reversible_stories (clear : Clear patches content)
    (all : ∀ patch ∈ patches, ∃ line, IsStoryImport line ∧ patch = ⟨line, none⟩) :
    ∃ text : List IndexPatch → Text, text [] = content ∧ Reversible patches text := by
  obtain ⟨above, below, place, same, hrows⟩ := exists_importPlace clear.last_import
  refine ⟨_, same, place.reversible all fun p hp => ⟨fun row hrow => ?_, fun row hrow => ?_⟩⟩
  · exact not_infix_of_mem_rows (clear.absent_line p hp) (hrows ▸ List.mem_append_left _ hrow)
  · exact not_infix_of_mem_rows (clear.absent_line p hp) (hrows ▸ List.mem_append_right _ hrow)

end Clear

end ComponentForge

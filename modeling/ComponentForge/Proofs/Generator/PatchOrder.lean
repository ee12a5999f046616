import ComponentForge.Proofs.Generator.Names
import ComponentForge.Proofs.Generator.Session
import ComponentForge.Proofs.Index.Framing

/-!
# Patches taken back in any order

Patches with different import lines and different identifiers fill the two lists of a frame in their
order. Each reversal takes its own line and its own identifier out, whatever stands before them, so
that after the last one the frame is empty again.
-/

namespace ComponentForge

open Access Index

namespace IndexPatch

/-- The import lines of the patches. -/
def lines (patches : List IndexPatch) : List Text :=
  patches.map (·.importLine)

/-- The identifiers that the patches list. -/
def identifiers (patches : List IndexPatch) : List Text :=
  patches.filterMap fun patch => patch.exportEntry.map (·.identifier)

theorem lines_append (a b : List IndexPatch) : lines (a ++ b) = lines a ++ lines b :=
  List.map_append

theorem identifiers_append (a b : List IndexPatch) :
    identifiers (a ++ b) = identifiers a ++ identifiers b :=
  List.filterMap_append

end IndexPatch

open IndexPatch

/-- The patch is one of a component or a container with an accepted name. -/
def IndexPatch.IsGenerated (patch : IndexPatch) : Prop :=
  ∃ config raw names, Names.Accepted config raw names ∧
    (patch = names.componentPatch ∨ patch = names.containerPatch)

theorem IndexPatch.IsGenerated.isModulePatch {patch : IndexPatch} (h : patch.IsGenerated) :
    IsModulePatch patch := by
  obtain ⟨config, raw, names, accepted, rfl | rfl⟩ := h
  · exact accepted.worded.componentPatch
  · exact accepted.worded.containerPatch

section Lists

variable {patches : List IndexPatch} {frame : Frame}

theorem isModuleImport_of_mem_lines (h : ∀ patch ∈ patches, IsModulePatch patch) {line : Text}
    (hline : line ∈ lines patches) : IsModuleImport line := by
  obtain ⟨patch, hpatch, rfl⟩ := List.mem_map.1 hline
  obtain ⟨line, x, himport, -, rfl⟩ := h patch hpatch
  exact himport

theorem isWord_of_mem_identifiers (h : ∀ patch ∈ patches, IsModulePatch patch) {x : Text}
    (hx : x ∈ identifiers patches) : IsWord x := by
  obtain ⟨patch, hpatch, hentry⟩ := List.mem_filterMap.1 hx
  obtain ⟨line, y, -, hword, rfl⟩ := h patch hpatch
  obtain rfl : y = x := by simpa using hentry
  exact hword

end Lists

namespace Index.Frame

/-- The frame lacks the lines of the patch. -/
def LacksPatch (frame : Frame) (patch : IndexPatch) : Prop :=
  ∀ entry ∈ patch.exportEntry, frame.Lacks patch.importLine entry.identifier

/-- The rows of the frame stand in a text that has nothing of the patch. -/
theorem lacksPatch_of_absent {frame : Frame} {patch : IndexPatch} {content : Text}
    (built : IsModulePatch patch) (rows_of_text : ∀ row ∈ frame.rows, row ∈ content.rows)
    (absent_line : ¬ patch.importLine <:+: content)
    (absent_entry : ∀ entry ∈ patch.exportEntry,
      (Pattern.entry entry.identifier).split? content = none) : frame.LacksPatch patch := by
  obtain ⟨line, x, -, hx, rfl⟩ := built
  rintro entry hentry
  have none_hit := absent_entry entry hentry
  obtain rfl : Index.entry x = entry := by simpa using hentry
  refine ⟨fun row hrow inside => ?_, fun row hrow => ?_⟩
  · apply absent_line
    rw [← Text.rows_flatten content]
    exact inside.trans (List.infix_of_mem_flatten (rows_of_text row hrow))
  · exact (oneLine_entry hx).split?_eq_none_iff.1 none_hit row (rows_of_text row hrow)

/-- The text in which these patches were applied. -/
def patched (frame : Frame) (patches : List IndexPatch) : Text :=
  frame.text (lines patches) (identifiers patches)

variable {frame : Frame} {patches before after : List IndexPatch} {patch : IndexPatch}

theorem Sound.apply_patched (sound : frame.Sound) (all : ∀ p ∈ patches, IsModulePatch p)
    (built : IsModulePatch patch) (lacks : frame.LacksPatch patch)
    (new_line : patch.importLine ∉ lines patches)
    (new_identifier : ∀ entry ∈ patch.exportEntry, entry.identifier ∉ identifiers patches) :
    patch.apply (frame.patched patches) = .ok (frame.patched (patches ++ [patch])) := by
  obtain ⟨line, x, himport, hx, rfl⟩ := built
  have hnew : x ∉ identifiers patches := new_identifier (entry x) rfl
  have applied := sound.apply_text
    (fun j hj => (isModuleImport_of_mem_lines all hj).isImportLine)
    (fun y hy => isWord_of_mem_identifiers all hy) himport.isImportLine hx (lacks (entry x) rfl)
    (fun other hother => himport.eq_of_infix (isModuleImport_of_mem_lines all hother))
  rw [appendNew_of_notMem new_line, appendNew_of_notMem hnew] at applied
  rw [patched, applied]
  simp [patched, lines, identifiers]

theorem Sound.revert?_patched (sound : frame.Sound)
    (all : ∀ p ∈ before ++ patch :: after, IsModulePatch p) (lacks : frame.LacksPatch patch)
    (nodup_lines : (lines (before ++ patch :: after)).Nodup)
    (nodup_identifiers : (identifiers (before ++ patch :: after)).Nodup) :
    patch.revert? (frame.patched (before ++ patch :: after)) =
      .ok (some (frame.patched (before ++ after))) := by
  obtain ⟨line, x, himport, hx, rfl⟩ := all patch (by simp)
  have reverted := sound.revert?_text
    (fun j hj => (isModuleImport_of_mem_lines all hj).isImportLine)
    (fun y hy => isWord_of_mem_identifiers all hy) himport.isImportLine hx (lacks (entry x) rfl)
    (fun other hother => himport.eq_of_infix (isModuleImport_of_mem_lines all hother))
  have lines_eq : lines (before ++ ⟨line, some (entry x)⟩ :: after) =
      lines before ++ line :: lines after := by simp [lines]
  have identifiers_eq : identifiers (before ++ ⟨line, some (entry x)⟩ :: after) =
      identifiers before ++ x :: identifiers after := by simp [identifiers]
  rw [lines_eq] at nodup_lines reverted
  rw [identifiers_eq] at nodup_identifiers reverted
  have line_once : line ∉ lines before := fun h =>
    (List.nodup_append.1 nodup_lines).2.2 line h line List.mem_cons_self rfl
  have identifier_once : x ∉ identifiers before := fun h =>
    (List.nodup_append.1 nodup_identifiers).2.2 x h x List.mem_cons_self rfl
  have present : line ∈ lines before ++ line :: lines after ∨
      x ∈ identifiers before ++ x :: identifiers after := Or.inl (by simp)
  rw [if_pos present, erase_append_cons line_once, erase_append_cons identifier_once] at reverted
  have lines_rest : lines before ++ lines after = lines (before ++ after) := by simp [lines]
  have identifiers_rest : identifiers before ++ identifiers after = identifiers (before ++ after) := by
    simp [identifiers]
  rw [patched, patched, lines_eq, identifiers_eq, reverted, lines_rest, identifiers_rest]

/-- Every new patch changes the text. -/
theorem Sound.patched_ne (sound : frame.Sound) (all : ∀ p ∈ patches, IsModulePatch p)
    (built : IsModulePatch patch) (new_line : patch.importLine ∉ lines patches)
    (new_identifier : ∀ entry ∈ patch.exportEntry, entry.identifier ∉ identifiers patches) :
    frame.patched (patches ++ [patch]) ≠ frame.patched patches := by
  obtain ⟨line, x, himport, hx, rfl⟩ := built
  have hnew : x ∉ identifiers patches := new_identifier (entry x) rfl
  have changed := sound.text_appendNew_eq_iff
    (fun j hj => (isModuleImport_of_mem_lines all hj).isImportLine)
    (fun y hy => isWord_of_mem_identifiers all hy) himport.isImportLine hx
  rw [appendNew_of_notMem new_line, appendNew_of_notMem hnew] at changed
  intro same
  apply new_line
  refine (changed.1 ?_).1
  simpa [patched, lines, identifiers] using same

end Index.Frame

section Runs

variable {project : Project} {path : Path} {frame : Frame} {r : Route} {s : Session}

/-- Nothing but the file at the route differs between the sessions. -/
structure SameElsewhere (s u : Session) (r : Route) : Prop where
  tree : ∀ q, q ≠ r → u.tree.get? q = s.tree.get? q
  log : u.log = s.log

theorem sameElsewhere_setText {content : Text} (h : ReadsAt s.tree (project.root.join path) r content)
    (new : Text) : SameElsewhere s (s.setText r new) r where
  tree q hq := by simp [Session.setText, Tree.get?_set _ h.ne_nil, hq]
  log := rfl

theorem SameElsewhere.trans {u v : Session} (h : SameElsewhere s u r) (h' : SameElsewhere u v r) :
    SameElsewhere s v r where
  tree q hq := (h'.tree q hq).trans (h.tree q hq)
  log := h'.log.trans h.log

/-- Applied in turn, new patches fill the lists in their order. -/
theorem mapM_updateIndex (sound : frame.Sound) (done patches : List IndexPatch)
    (all : ∀ p ∈ done ++ patches, IsModulePatch p) (lacks : ∀ p ∈ patches, frame.LacksPatch p)
    (nodup_lines : (lines (done ++ patches)).Nodup)
    (nodup_identifiers : (identifiers (done ++ patches)).Nodup)
    (reads : ReadsAt s.tree (project.root.join path) r (frame.patched done)) :
    ∃ u, patches.mapM (project.updateIndex path) s =
        .ok (List.replicate patches.length .updated) u ∧
      ReadsAt u.tree (project.root.join path) r (frame.patched (done ++ patches)) ∧
      SameElsewhere s u r := by
  induction patches generalizing done s with
  | nil => exact ⟨s, rfl, by simpa using reads, fun _ _ => rfl, rfl⟩
  | cons patch rest ih =>
    have built := all patch (by simp)
    have done_all : ∀ p ∈ done, IsModulePatch p := fun p hp => all p (by simp [hp])
    have regroup : done ++ patch :: rest = done ++ [patch] ++ rest := by simp
    have new_line : patch.importLine ∉ lines done := fun h =>
      (List.nodup_append.1 (lines_append done (patch :: rest) ▸ nodup_lines)).2.2 _ h _
        List.mem_cons_self rfl
    have new_identifier : ∀ entry ∈ patch.exportEntry, entry.identifier ∉ identifiers done := by
      intro entry hentry h
      refine (List.nodup_append.1 (identifiers_append done (patch :: rest) ▸ nodup_identifiers)).2.2
        _ h _ (List.mem_filterMap.2 ⟨patch, List.mem_cons_self, ?_⟩) rfl
      rw [Option.mem_def.1 hentry]
      rfl
    have patch_lacks := lacks patch List.mem_cons_self
    have applied := sound.apply_patched done_all built patch_lacks new_line new_identifier
    have changed := sound.patched_ne done_all built new_line new_identifier
    have updated := Project.updateIndex_of_readsAt reads applied
    rw [if_neg changed] at updated
    obtain ⟨u, ran, reads_after, same⟩ := ih (done ++ [patch]) (regroup ▸ all)
      (fun p hp => lacks p (List.mem_cons_of_mem _ hp)) (regroup ▸ nodup_lines)
      (regroup ▸ nodup_identifiers) (Session.readsAt_setText reads _)
    refine ⟨u, ?_, regroup ▸ reads_after, (sameElsewhere_setText reads _).trans same⟩
    rw [List.mapM_cons, bind_of_ok updated, bind_of_ok ran, pure_run, List.length_cons,
      List.replicate_succ]

/-- Taken back in any order, patches leave the lists that they filled. -/
theorem mapM_unpatchIndex (sound : frame.Sound) {others patches : List IndexPatch}
    (order : others.Perm patches) (all : ∀ p ∈ patches, IsModulePatch p)
    (lacks : ∀ p ∈ patches, frame.LacksPatch p) (nodup_lines : (lines patches).Nodup)
    (nodup_identifiers : (identifiers patches).Nodup)
    (reads : ReadsAt s.tree (project.root.join path) r (frame.patched patches)) :
    ∃ u, others.mapM (project.unpatchIndex path) s =
        .ok (List.replicate patches.length .updated) u ∧
      ReadsAt u.tree (project.root.join path) r (frame.patched []) ∧ SameElsewhere s u r := by
  induction others generalizing patches s with
  | nil =>
    obtain rfl := List.nil_perm.1 order
    exact ⟨s, rfl, reads, fun _ _ => rfl, rfl⟩
  | cons patch rest ih =>
    obtain ⟨before, after, rfl⟩ := List.append_of_mem (order.subset List.mem_cons_self)
    have rest_order : rest.Perm (before ++ after) :=
      (order.trans List.perm_middle).cons_inv
    have kept : (before ++ after).Sublist (before ++ patch :: after) :=
      (List.sublist_cons_self patch after).append_left before
    have reverted := sound.revert?_patched all (lacks patch (by simp)) nodup_lines nodup_identifiers
    have updated := Project.unpatchIndex_of_readsAt reads reverted
    obtain ⟨u, ran, reads_after, same⟩ := ih rest_order (fun p hp => all p (kept.subset hp))
      (fun p hp => lacks p (kept.subset hp)) (nodup_lines.sublist (kept.map _))
      (nodup_identifiers.sublist (kept.filterMap _)) (Session.readsAt_setText reads _)
    refine ⟨u, ?_, reads_after, (sameElsewhere_setText reads _).trans same⟩
    have length : (before ++ patch :: after).length = (before ++ after).length + 1 := by
      simp; omega
    rw [List.mapM_cons, bind_of_ok updated, bind_of_ok ran, pure_run, length, List.replicate_succ]

end Runs

/-- An index file in order that has nothing of the patches is the same again after they were applied
and taken back in any order, and every one of these edits changes it. -/
theorem unpatchIndex_restores {project : Project} {path : Path} {s : Session} {content : Text}
    {zone : ExportZone} {patches others : List IndexPatch}
    (reads : read (project.root.join path) s.tree = .ok content s.tree)
    (located : ExportZone.locate? content exportMarker = some zone) (orderly : Orderly content zone)
    (generated : ∀ patch ∈ patches, patch.IsGenerated)
    (absent_line : ∀ patch ∈ patches, ¬ patch.importLine <:+: content)
    (absent_entry : ∀ patch ∈ patches, ∀ entry ∈ patch.exportEntry,
      (Pattern.entry entry.identifier).split? content = none)
    (nodup_lines : (lines patches).Nodup) (nodup_identifiers : (identifiers patches).Nodup)
    (order : others.Perm patches) :
    ∃ patched restored,
      patches.mapM (project.updateIndex path) s =
        .ok (List.replicate patches.length .updated) patched ∧
      others.mapM (project.unpatchIndex path) patched =
        .ok (List.replicate patches.length .updated) restored ∧
      read (project.root.join path) restored.tree = .ok content restored.tree ∧
      ∀ r, restored.tree.get? r = s.tree.get? r := by
  obtain ⟨-, r, reads_at⟩ := readsAt_of_read reads
  obtain ⟨frame, sound, text_eq, rows_of_text⟩ := exists_frame orderly located
  have all : ∀ patch ∈ patches, IsModulePatch patch := fun p hp => (generated p hp).isModulePatch
  have lacks : ∀ patch ∈ patches, frame.LacksPatch patch := fun p hp =>
    Index.Frame.lacksPatch_of_absent (all p hp) rows_of_text (absent_line p hp) (absent_entry p hp)
  have empty : frame.patched [] = content := text_eq
  obtain ⟨patched, ran, reads_patched, same⟩ :=
    mapM_updateIndex sound [] patches (by simpa using all) lacks
      (by simpa using nodup_lines) (by simpa using nodup_identifiers) (empty ▸ reads_at)
  obtain ⟨restored, ran_back, reads_restored, same_back⟩ :=
    mapM_unpatchIndex sound order all lacks nodup_lines nodup_identifiers reads_patched
  rw [empty] at reads_restored
  refine ⟨patched, restored, ran, ran_back, reads_restored.read, fun q => ?_⟩
  by_cases hq : q = r
  · rw [hq, reads_restored.holds, reads_at.holds]
  · rw [same_back.tree q hq, same.tree q hq]

/-- An index file with carriage returns and a comment behind its only entry. -/
def windowsIndex : Text :=
  "import A from './a';\r\n\r\nexport \x7b\r\n  A // b\r\n\x7d;\r\n".toList

def windowsSession : Session :=
  ⟨⟨[(["index.js".toList], .file (.text windowsIndex))]⟩, []⟩

def postNames : Names :=
  Names.derive Config.default "core".toList "post".toList

theorem unpatchIndex_restores_windowsIndex : ∃ patched restored,
    [postNames.componentPatch, postNames.containerPatch].mapM
        (Project.updateIndex ⟨.ofString ".", Config.default⟩ (.ofString "index.js")) windowsSession =
      .ok [.updated, .updated] patched ∧
    [postNames.containerPatch, postNames.componentPatch].mapM
        (Project.unpatchIndex ⟨.ofString ".", Config.default⟩ (.ofString "index.js")) patched =
      .ok [.updated, .updated] restored ∧
    read (.ofString "./index.js") restored.tree = .ok windowsIndex restored.tree ∧
    ∀ r, restored.tree.get? r = windowsSession.tree.get? r := by
  have accepted : Names.Accepted Config.default "core:post".toList postNames :=
    ⟨⟨"core:post".toList, some "core".toList, "post".toList⟩, "core".toList, "core".toList,
      by decide +kernel, rfl, by decide +kernel, by decide +kernel, rfl⟩
  have orderly : Orderly windowsIndex ⟨3, 5⟩ :=
    ⟨by decide +kernel, by decide +kernel, by decide +kernel⟩
  refine unpatchIndex_restores (by rfl) (by decide +kernel) orderly ?_ (by decide +kernel)
    (by decide +kernel) (by decide +kernel) (by decide +kernel) (List.Perm.swap _ _ [])
  intro patch hpatch
  rcases List.mem_cons.1 hpatch with rfl | hpatch
  · exact ⟨_, _, _, accepted, Or.inl rfl⟩
  · obtain rfl := List.mem_singleton.1 hpatch
    exact ⟨_, _, _, accepted, Or.inr rfl⟩

end ComponentForge

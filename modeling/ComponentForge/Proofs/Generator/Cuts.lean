import ComponentForge.Proofs.Generator.Promises
import ComponentForge.Proofs.Index.LineCuts

/-!
# What a reversal takes out of an index file

A reversal searches the whole text, for the import line inside of lines too. It takes out one line for
each of its two searches and leaves the other lines as they are.
-/

namespace ComponentForge

open Access Index

variable {project : Project} {path : Path} {s : Session} {patch : IndexPatch} {config : Config}
  {raw content : Text} {names : Names}

theorem Names.Accepted.regular (accepted : Names.Accepted config raw names)
    (mem : patch ∈ [names.componentPatch, names.containerPatch, names.storyPatch]) : patch.Regular := by
  simp only [List.mem_cons, List.not_mem_nil, or_false] at mem
  rcases mem with rfl | rfl | rfl
  · exact IsModulePatch.regular accepted.worded.componentPatch
  · exact IsModulePatch.regular accepted.worded.containerPatch
  · obtain ⟨line, hline, same⟩ := accepted.worded.storyPatch
    exact same ▸ IsStoryImport.regular hline

/-- A reversal of an index file that can be read succeeds. The first line that holds the import line is
gone, and so is the first entry line of what is left; every other line stays as it was, except that the
line above an entry that closed the zone may lose its comma. -/
theorem unpatchIndex_cuts (accepted : Names.Accepted config raw names)
    (mem : patch ∈ [names.componentPatch, names.containerPatch, names.storyPatch])
    (reads : read (project.root.join path) s.tree = .ok content s.tree) :
    ∃ outcome u new, project.unpatchIndex path patch s = .ok outcome u ∧
      (outcome = .unchanged ∧ u = s ∨ outcome = .updated) ∧
      read (project.root.join path) u.tree = .ok new u.tree ∧ patch.Reversed content new := by
  obtain ⟨-, r, reads_at⟩ := readsAt_of_read reads
  obtain ⟨edited?, reverted, reversed⟩ :=
    IndexPatch.exists_reversed (accepted.regular mem) content
  have ran := Project.unpatchIndex_of_readsAt reads_at reverted
  cases edited? with
  | none => exact ⟨_, s, content, ran, Or.inl ⟨rfl, rfl⟩, reads, reversed⟩
  | some new =>
    exact ⟨_, _, new, ran, Or.inr rfl, (Session.readsAt_setText reads_at new).read, reversed⟩

/-- Two entries, of which the second is the one that goes. -/
def pairIndex : Text :=
  "import Post from './components/Post';\r\nexport \x7b\r\n  Home, \r\n  Post\r\n\x7d;".toList

def pairSession : Session :=
  ⟨⟨[(["index.js".toList], .file (.text pairIndex))]⟩, []⟩

theorem unpatchIndex_cuts_pairIndex : ∃ outcome u new,
    hereProject.unpatchIndex (.ofString "index.js") postNames.componentPatch pairSession =
      .ok outcome u ∧
    (outcome = .unchanged ∧ u = pairSession ∨ outcome = .updated) ∧
    read (hereProject.root.join (.ofString "index.js")) u.tree = .ok new u.tree ∧
    postNames.componentPatch.Reversed pairIndex new := by
  have reads : read (hereProject.root.join (.ofString "index.js")) pairSession.tree =
      .ok pairIndex pairSession.tree := by rfl
  exact unpatchIndex_cuts accepted_post (by simp) reads

/-- A comment that holds the import line. -/
def commentIndex : Text :=
  "// import Post from './components/Post';\nexport \x7b\n\x7d;\n".toList

def commentSession : Session :=
  ⟨⟨[(["index.js".toList], .file (.text commentIndex))]⟩, []⟩

theorem unpatchIndex_cuts_comment : postNames.componentPatch.IsGenerated ∧
    (∀ line ∈ Text.segments commentIndex,
      line.trimEnd ≠ postNames.componentPatch.importLine ∧
        ¬ (Pattern.entry postNames.componentName).Hits line) ∧
    ∃ u, hereProject.unpatchIndex (.ofString "index.js") postNames.componentPatch commentSession =
        .ok .updated u ∧
      read (hereProject.root.join (.ofString "index.js")) u.tree =
        .ok "export \x7b\n\x7d;\n".toList u.tree := by
  have reads : read (hereProject.root.join (.ofString "index.js")) commentSession.tree =
      .ok commentIndex commentSession.tree := by rfl
  obtain ⟨-, r, reads_at⟩ := readsAt_of_read reads
  have reverted : postNames.componentPatch.revert? commentIndex =
      .ok (some "export \x7b\n\x7d;\n".toList) := by decide +kernel
  exact ⟨isGenerated_post, by decide +kernel, _, Project.unpatchIndex_of_readsAt reads_at reverted,
    (Session.readsAt_setText reads_at _).read⟩

end ComponentForge

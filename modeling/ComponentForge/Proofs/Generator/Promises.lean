import ComponentForge.Proofs.Generator.PatchOrder
import ComponentForge.Proofs.Index.ZoneEntries

/-!
# What an updated index file has

The two promises of an update, for the texts before and after it that a session reads.
-/

namespace ComponentForge

open Access Index

variable {project : Project} {path : Path} {s u : Session} {patch : IndexPatch} {outcome : PatchOutcome}

/-- An update that finds the index file edits the text of the file. -/
theorem exists_edited (ran : project.updateIndex path patch s = .ok outcome u)
    (there : outcome ≠ .missing) : ∃ content new,
      read (project.root.join path) s.tree = .ok content s.tree ∧ patch.apply content = .ok new ∧
        read (project.root.join path) u.tree = .ok new u.tree := by
  rcases project.openIndex?_cases path s with ⟨-, none⟩ | ⟨cause, failed⟩ | ⟨content, opened, reads⟩
  · rw [Project.updateIndex, bind_of_ok none] at ran
    cases ran
    exact absurd rfl there
  · rw [Project.updateIndex, bind_of_error failed] at ran
    cases ran
  · obtain ⟨-, r, reads_at⟩ := readsAt_of_read reads
    cases applied : patch.apply content with
    | error fault =>
      rw [Project.updateIndex, bind_of_ok opened] at ran
      simp only [applied, Run.ofExcept] at ran
      cases ran
    | ok new =>
      rw [Project.updateIndex_of_readsAt reads_at applied] at ran
      refine ⟨content, new, reads, applied, ?_⟩
      split at ran
      · rename_i same
        obtain ⟨-, rfl⟩ := EStateM.Result.ok.inj ran
        rw [same, reads]
      · obtain ⟨-, rfl⟩ := EStateM.Result.ok.inj ran
        exact (Session.readsAt_setText reads_at new).read

/-- An update leaves the import line as a whole line and the entry inside the export zone, where it puts
them in; an entry that stood elsewhere stays there. -/
theorem updateIndex_promises (generated : patch.IsGenerated)
    (ran : project.updateIndex path patch s = .ok outcome u) (there : outcome ≠ .missing) :
    ∃ content new, read (project.root.join path) s.tree = .ok content s.tree ∧
      read (project.root.join path) u.tree = .ok new u.tree ∧ patch.Promises content new := by
  obtain ⟨content, new, reads, applied, reads_new⟩ := exists_edited ran there
  obtain ⟨line, x, hline, word, rfl⟩ := generated.isModulePatch
  have regular : IndexPatch.Regular ⟨line, some (entry x)⟩ :=
    IsModulePatch.regular ⟨line, x, hline, word, rfl⟩
  exact ⟨content, new, reads, reads_new, IndexPatch.promises_of_apply regular word rfl applied⟩

def hereProject : Project :=
  ⟨.ofString ".", Config.default⟩

theorem accepted_post : Names.Accepted Config.default "core:post".toList postNames :=
  ⟨⟨"core:post".toList, some "core".toList, "post".toList⟩, "core".toList, "core".toList,
    by decide +kernel, rfl, by decide +kernel, by decide +kernel, rfl⟩

theorem isGenerated_post : postNames.componentPatch.IsGenerated :=
  ⟨_, _, _, accepted_post, Or.inl rfl⟩

/-- Two entries, and a list above them that has one of them too. -/
def menuIndex : Text :=
  "const menu = [\n  Home\n];\nexport \x7b\n  Home,\n  About\n\x7d;\n".toList

def menuIndexWithPost : Text :=
  "import Post from './components/Post';\n".toList ++
    "const menu = [\n  Home\n];\nexport \x7b\n  Home,\n  About,\n  Post\n\x7d;\n".toList

def menuSession : Session :=
  ⟨⟨[(["index.js".toList], .file (.text menuIndex))]⟩, []⟩

theorem updateIndex_promises_menuIndex : ∃ u content new,
    hereProject.updateIndex (.ofString "index.js") postNames.componentPatch menuSession =
      .ok .updated u ∧
    read (hereProject.root.join (.ofString "index.js")) menuSession.tree =
      .ok content menuSession.tree ∧
    read (hereProject.root.join (.ofString "index.js")) u.tree = .ok new u.tree ∧
    postNames.componentPatch.Promises content new := by
  have reads : read (hereProject.root.join (.ofString "index.js")) menuSession.tree =
      .ok menuIndex menuSession.tree := by rfl
  obtain ⟨-, r, reads_at⟩ := readsAt_of_read reads
  have applied : postNames.componentPatch.apply menuIndex = .ok menuIndexWithPost := by
    decide +kernel
  have ran := Project.updateIndex_of_readsAt reads_at applied
  rw [if_neg (by decide +kernel)] at ran
  obtain ⟨content, new, reads, reads_new, promises⟩ :=
    updateIndex_promises isGenerated_post ran (by decide)
  exact ⟨_, content, new, ran, reads, reads_new, promises⟩

/-- A list above the zone that has the entry on a line of its own. -/
def listIndex : Text :=
  "const all = [\n  Post\n];\nexport \x7b\n\x7d;\n".toList

def listIndexWithPost : Text :=
  "import Post from './components/Post';\nconst all = [\n  Post\n];\nexport \x7b\n\x7d;\n".toList

def listSession : Session :=
  ⟨⟨[(["index.js".toList], .file (.text listIndex))]⟩, []⟩

theorem updateIndex_leaves_zone_empty : postNames.componentPatch.IsGenerated ∧ ∃ u new,
    hereProject.updateIndex (.ofString "index.js") postNames.componentPatch listSession =
      .ok .updated u ∧
    read (hereProject.root.join (.ofString "index.js")) u.tree = .ok new u.tree ∧
    ExportZone.locate? new exportMarker = some ⟨5, 6⟩ ∧ ExportZone.inner ⟨5, 6⟩ new = [] := by
  have reads : read (hereProject.root.join (.ofString "index.js")) listSession.tree =
      .ok listIndex listSession.tree := by rfl
  obtain ⟨-, r, reads_at⟩ := readsAt_of_read reads
  have applied : postNames.componentPatch.apply listIndex = .ok listIndexWithPost := by
    decide +kernel
  have ran := Project.updateIndex_of_readsAt reads_at applied
  rw [if_neg (by decide +kernel)] at ran
  exact ⟨isGenerated_post, _, listIndexWithPost, ran,
    (Session.readsAt_setText reads_at _).read, by decide +kernel, by decide +kernel⟩

end ComponentForge

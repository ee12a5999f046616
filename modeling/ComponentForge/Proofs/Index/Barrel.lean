import ComponentForge.Proofs.Generator.Names
import ComponentForge.Proofs.Index.Patch

/-!
# Barrels

A barrel is what an index file holds if only edits have filled it: import lines on top and below them
one zone that lists identifiers. A patch adds what the two lists lack of it, and its reversal removes
what they have of it. The index file of the stories has import lines only.
-/

namespace ComponentForge

open Index Text

/-- The lists of an index file of a module. -/
structure Barrel where
  imports : List Text
  identifiers : List Text
  are_imports : ∀ line ∈ imports, IsModuleImport line
  are_words : ∀ x ∈ identifiers, IsWord x
  nodup_imports : imports.Nodup
  nodup_identifiers : identifiers.Nodup

namespace Barrel

/-- The rows of the zone: commas stand between entries, not after the last one. -/
def entries : List Text → Text
  | [] => []
  | [x] => ' ' :: ' ' :: (x ++ ['\n'])
  | x :: more => ' ' :: ' ' :: (x ++ [',', '\n']) ++ entries more

/-- The text of an index file with these lists. -/
def text (barrel : Barrel) : Text :=
  (barrel.imports.map terminate).flatten ++ "export \x7b\n".toList ++ entries barrel.identifiers ++
    "\x7d;\n".toList

def empty : Barrel where
  imports := []
  identifiers := []
  are_imports := by simp
  are_words := by simp
  nodup_imports := List.nodup_nil
  nodup_identifiers := List.nodup_nil

/-- The barrel with the line and the identifier at the ends of its lists, where they are absent. -/
def add (barrel : Barrel) {line x : Text} (hline : IsModuleImport line) (hx : IsWord x) : Barrel where
  imports := appendNew barrel.imports line
  identifiers := appendNew barrel.identifiers x
  are_imports := forall_mem_appendNew barrel.are_imports hline
  are_words := forall_mem_appendNew barrel.are_words hx
  nodup_imports := nodup_appendNew barrel.nodup_imports line
  nodup_identifiers := nodup_appendNew barrel.nodup_identifiers x

/-- The barrel without the line and the identifier. -/
def remove (barrel : Barrel) (line x : Text) : Barrel where
  imports := barrel.imports.erase line
  identifiers := barrel.identifiers.erase x
  are_imports other hother := barrel.are_imports other (List.mem_of_mem_erase hother)
  are_words other hother := barrel.are_words other (List.mem_of_mem_erase hother)
  nodup_imports := barrel.nodup_imports.erase line
  nodup_identifiers := barrel.nodup_identifiers.erase x

/-- The text around the two lists. -/
def frame : Frame where
  upper := true
  first := []
  second := ["export \x7b\n".toList]
  last := none
  rest := "\x7d;\n".toList
  trailing := false
  begin := 1

theorem flatten_listing (identifiers : List Text) :
    (listing false (identifiers.map .ofIdentifier)).flatten = entries identifiers := by
  induction identifiers with
  | nil => rfl
  | cons x more ih =>
    rw [List.map_cons, listing, List.flatten_cons, ih]
    cases more with
    | nil => simp [entries, Item.row, Item.ofIdentifier]
    | cons y more => simp [entries, Item.row, Item.ofIdentifier]

theorem text_eq (barrel : Barrel) : barrel.text = frame.text barrel.imports barrel.identifiers := by
  have rows := flatten_listing barrel.identifiers
  simp only [Frame.text, Frame.front, Frame.tail, Frame.itemRows, Frame.items, frame, if_true,
    Option.toList_none, List.nil_append, List.flatten_append, rows, text, List.flatten_singleton]

theorem sound : frame.Sound where
  terminated := by
    intro row hrow
    obtain rfl := List.mem_singleton.1 hrow
    exact ⟨"export \x7b".toList, by decide, by decide⟩
  tidy := by simp [frame]
  styled := by simp [frame, Frame.front, Styled]
  alone := by simp [frame]
  upper_place _ := ⟨rfl, by decide, by decide⟩
  lower_place := by simp [frame]
  rest_place := by decide
  located := by decide

/-- The frame has neither an import line nor an entry. -/
theorem lacks {line x : Text} (hline : IsImportLine line) (hx : IsWord x) : frame.Lacks line x where
  line := by
    intro row hrow inside
    have unquoted : ∀ row ∈ frame.rows, '\'' ∉ row := by decide
    exact unquoted row hrow (inside.subset hline.quoted)
  entry := by
    intro row hrow
    have opening : "export \x7b\n".toList = terminate "export \x7b".toList := by decide
    have closing : "\x7d;\n".toList = terminate "\x7d;".toList := by decide
    have rows : frame.rows = ["export \x7b\n".toList, "\x7d;\n".toList] := by decide
    rw [rows, opening, closing] at hrow
    rcases List.mem_cons.1 hrow with rfl | hrow
    · exact not_hits_of_mem hx (c := '{') (by decide) (by decide) (by decide) (by decide) (by decide)
        (by decide)
    · obtain rfl := List.mem_singleton.1 hrow
      exact not_hits_of_mem hx (c := '}') (by decide) (by decide) (by decide) (by decide) (by decide)
        (by decide)

variable {line x : Text}

theorem others (barrel : Barrel) (hline : IsModuleImport line) :
    ∀ other ∈ barrel.imports, line <:+: other → line = other :=
  fun _ hother => hline.eq_of_infix (barrel.are_imports _ hother)

theorem are_lines (barrel : Barrel) : ∀ line ∈ barrel.imports, IsImportLine line :=
  fun _ hline => (barrel.are_imports _ hline).isImportLine

/-- Applying a patch is adding its line and its identifier. -/
theorem apply_text (barrel : Barrel) (hline : IsModuleImport line) (hx : IsWord x) :
    (IndexPatch.mk line (some (entry x))).apply barrel.text = .ok (barrel.add hline hx).text := by
  rw [text_eq, text_eq]
  exact sound.apply_text barrel.are_lines barrel.are_words hline.isImportLine hx
    (lacks hline.isImportLine hx) (barrel.others hline)

theorem text_add_eq_iff (barrel : Barrel) (hline : IsModuleImport line) (hx : IsWord x) :
    (barrel.add hline hx).text = barrel.text ↔ line ∈ barrel.imports ∧ x ∈ barrel.identifiers := by
  rw [text_eq, text_eq]
  exact sound.text_appendNew_eq_iff barrel.are_lines barrel.are_words hline.isImportLine hx

/-- Taking a patch back is removing its line and its identifier. -/
theorem revert?_text (barrel : Barrel) (hline : IsModuleImport line) (hx : IsWord x) :
    (IndexPatch.mk line (some (entry x))).revert? barrel.text =
      .ok (if line ∈ barrel.imports ∨ x ∈ barrel.identifiers then some (barrel.remove line x).text
        else none) := by
  rw [text_eq, text_eq]
  exact sound.revert?_text barrel.are_lines barrel.are_words hline.isImportLine hx
    (lacks hline.isImportLine hx) (barrel.others hline)

end Barrel

/-- The import lines of the index file of the stories of a module. -/
structure StoryList where
  imports : List Text
  are_imports : ∀ line ∈ imports, IsStoryImport line
  nodup_imports : imports.Nodup

namespace StoryList

def text (stories : StoryList) : Text :=
  (stories.imports.map terminate).flatten

def empty : StoryList where
  imports := []
  are_imports := by simp
  nodup_imports := List.nodup_nil

variable {line : Text}

def add (stories : StoryList) (hline : IsStoryImport line) : StoryList where
  imports := appendNew stories.imports line
  are_imports := forall_mem_appendNew stories.are_imports hline
  nodup_imports := nodup_appendNew stories.nodup_imports line

def remove (stories : StoryList) (line : Text) : StoryList where
  imports := stories.imports.erase line
  are_imports other hother := stories.are_imports other (List.mem_of_mem_erase hother)
  nodup_imports := stories.nodup_imports.erase line

theorem are_lines (stories : StoryList) : ∀ line ∈ stories.imports, IsImportLine line :=
  fun _ hline => (stories.are_imports _ hline).isImportLine

theorem text_eq (stories : StoryList) : stories.text = withImports [] stories.imports [] := by
  simp [text, withImports]

theorem foreign (stories : StoryList) (hline : IsStoryImport line) :
    Foreign line [] stories.imports [] where
  above := by simp
  below := by simp [Text.rows]
  others _ hother := hline.eq_of_infix (stories.are_imports _ hother)

theorem place : ImportPlace [] [] :=
  ⟨by simp, rfl, by simp [Text.rows]⟩

theorem hasLine_text (stories : StoryList) (hline : IsStoryImport line) :
    hasLine stories.text line ↔ line ∈ stories.imports := by
  rw [text_eq]
  exact hasLine_withImports place.terminated stories.are_lines hline.isImportLine
    (stories.foreign hline)

/-- Applying a patch without an entry is adding its line. -/
theorem apply_text (stories : StoryList) (hline : IsStoryImport line) :
    (IndexPatch.mk line none).apply stories.text = .ok (stories.add hline).text := by
  have has := stories.hasLine_text hline
  by_cases hmem : line ∈ stories.imports
  · have same : (stories.add hline).text = stories.text := by
      simp only [text, add, appendNew_of_mem hmem]
    rw [IndexPatch.apply, if_pos (has.2 hmem), same]
  · have longer : insertImport stories.text line = (stories.add hline).text := by
      rw [text_eq, text_eq, insertImport_withImports place stories.are_lines]
      simp only [add, appendNew_of_notMem hmem]
    rw [IndexPatch.apply, if_neg (mt has.1 hmem), longer]

theorem text_add_eq_iff (stories : StoryList) (hline : IsStoryImport line) :
    (stories.add hline).text = stories.text ↔ line ∈ stories.imports := by
  have count : ∀ stories : StoryList, stories.text.count '\n' = stories.imports.length := by
    intro stories
    have terminated := terminated_withImports place.terminated stories.are_lines
    have fed := count_flatten terminated
    simpa [text] using fed
  constructor
  · intro same
    by_contra hmem
    have counts := congrArg (List.count '\n') same
    rw [count, count, add] at counts
    simp [appendNew_of_notMem hmem] at counts
  · intro hmem
    simp only [text, add, appendNew_of_mem hmem]

/-- Taking it back is removing its line. -/
theorem revert?_text (stories : StoryList) (hline : IsStoryImport line) :
    (IndexPatch.mk line none).revert? stories.text =
      .ok (if line ∈ stories.imports then some (stories.remove line).text else none) := by
  have removed := removeLine?_withImports place.terminated stories.are_lines hline.isImportLine
    (stories.foreign hline)
  rw [IndexPatch.revert?, text_eq, text_eq]
  exact congrArg Except.ok removed

end StoryList

end ComponentForge

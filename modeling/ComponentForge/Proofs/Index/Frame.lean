import ComponentForge.Generator.Entity
import ComponentForge.Proofs.Index.Exports
import ComponentForge.Proofs.Index.Imports
import Mathlib.Data.List.Nodup

/-!
# Index files as two lists

What edits put into an index file are import lines in one block and entries at the end of the
export zone. The frame is the text around these two lists; the block stands above the zone or below
it. On the lists a patch appends what is absent and its reversal erases what is present, while the
frame stays as it is.
-/

namespace ComponentForge.Index

open Text

/-- The list with the value at its end, unless it has the value already. -/
def appendNew (values : List Text) (value : Text) : List Text :=
  if value ∈ values then values else values ++ [value]

theorem appendNew_of_mem {values : List Text} {value : Text} (h : value ∈ values) :
    appendNew values value = values :=
  if_pos h

theorem appendNew_of_notMem {values : List Text} {value : Text} (h : value ∉ values) :
    appendNew values value = values ++ [value] :=
  if_neg h

theorem mem_appendNew {values : List Text} {value other : Text} :
    other ∈ appendNew values value ↔ other ∈ values ∨ other = value := by
  by_cases h : value ∈ values
  · rw [appendNew_of_mem h]
    exact ⟨Or.inl, fun hother => hother.elim id fun e => e ▸ h⟩
  · simp [appendNew_of_notMem h]

theorem forall_mem_appendNew {P : Text → Prop} {values : List Text} {value : Text}
    (h : ∀ other ∈ values, P other) (hvalue : P value) : ∀ other ∈ appendNew values value, P other := by
  intro other hother
  rcases mem_appendNew.1 hother with hother | rfl
  · exact h other hother
  · exact hvalue

theorem nodup_appendNew {values : List Text} (h : values.Nodup) (value : Text) :
    (appendNew values value).Nodup := by
  by_cases hmem : value ∈ values
  · rwa [appendNew_of_mem hmem]
  · rw [appendNew_of_notMem hmem]
    refine List.nodup_append.2 ⟨h, List.nodup_singleton value, ?_⟩
    rintro other hother same hsame rfl
    exact hmem (List.mem_singleton.1 hsame ▸ hother)

/-- The text around the import lines and the entries. -/
structure Frame where
  /-- The import lines stand above the zone. -/
  upper : Bool
  /-- The rows above the upper list. -/
  first : List Text
  /-- The rows between the two lists. -/
  second : List Text
  /-- The row before the closing one if entries share their commas with it. -/
  last : Option Item
  rest : Text
  /-- The zone has trailing commas. -/
  trailing : Bool
  /-- The row of the marker, counted from one, while there are no import lines. -/
  begin : Nat

namespace Frame

variable (frame : Frame) (J K : List Text)

/-- The items at the end of the zone. -/
def items : List Item :=
  frame.last.toList ++ K.map .ofIdentifier

def itemRows : List Text :=
  listing frame.trailing (frame.items K)

/-- The rows above the items. -/
def front : List Text :=
  if frame.upper then frame.first ++ J.map terminate ++ frame.second else frame.first

/-- The text below the items. -/
def tail : Text :=
  if frame.upper then frame.rest
  else frame.second.flatten ++ ((J.map terminate).flatten ++ frame.rest)

/-- The rows above the import lines. -/
def above : List Text :=
  if frame.upper then frame.first else frame.first ++ frame.itemRows K ++ frame.second

/-- The text below the import lines. -/
def below : Text :=
  if frame.upper then (frame.second ++ frame.itemRows K).flatten ++ frame.rest else frame.rest

/-- The text with these import lines and these entries. -/
def text : Text :=
  (frame.front J ++ frame.itemRows K).flatten ++ frame.tail J

/-- The rows of the frame itself. -/
def rows : List Text :=
  frame.first ++ frame.second ++ frame.last.toList.map (·.row false) ++ frame.rest.rows

variable {frame K} in
theorem mem_above {row : Text} (h : row ∈ frame.above K) :
    row ∈ frame.first ++ frame.second ∨ row ∈ frame.itemRows K := by
  cases hupper : frame.upper <;> simp only [above, hupper, if_true, if_false, Bool.false_eq_true,
    List.mem_append] at h
  · rcases h with (h | h) | h
    · exact Or.inl (List.mem_append_left _ h)
    · exact Or.inr h
    · exact Or.inl (List.mem_append_right _ h)
  · exact Or.inl (List.mem_append_left _ h)

theorem text_eq_withImports : frame.text J K = withImports (frame.above K) J (frame.below K) := by
  cases h : frame.upper <;> simp [text, front, tail, above, below, withImports, h]

end Frame

/-- The frame fits the edits: they find the zone, the comma style and the place of the imports
where the frame has them. -/
structure Frame.Sound (frame : Frame) : Prop where
  terminated : ∀ row ∈ frame.first ++ frame.second, Terminated row
  tidy : ∀ item ∈ frame.last, item.Tidy
  styled : Styled frame.trailing (frame.front []) frame.begin frame.last.toList
  alone : frame.trailing → frame.last = none
  upper_place : frame.upper → importRows frame.first = frame.first.length ∧
    frame.first.length < frame.begin ∧
    ∀ row ∈ frame.second ++ frame.last.toList.map (·.row false), isImport row = false
  lower_place : frame.upper = false → importRows frame.second = frame.second.length ∧
    frame.second ≠ []
  rest_place : ∀ row ∈ frame.rest.rows, isImport row = false
  located : ExportZone.locate? (frame.text [] []) exportMarker =
    some ⟨frame.begin, (frame.front []).length + frame.last.toList.length + 1⟩

/-- The line and the identifier occur in no row of the frame. -/
structure Frame.Lacks (frame : Frame) (line identifier : Text) : Prop where
  line : ∀ row ∈ frame.rows, ¬ line <:+: row
  entry : ∀ row ∈ frame.rows, ¬ (Pattern.entry identifier).Hits row

section Rows

variable {line : Text} {item : Item} {comma : Bool}

theorem mem_itemRows {frame : Frame} {K : List Text} {row : Text} (h : row ∈ frame.itemRows K) :
    (∃ item ∈ frame.last, ∃ comma, row = item.row comma) ∨
      ∃ x ∈ K, ∃ comma, row = (Item.ofIdentifier x).row comma := by
  obtain ⟨item, hitem, comma, rfl⟩ := mem_listing h
  rcases List.mem_append.1 hitem with hitem | hitem
  · exact Or.inl ⟨item, by simpa using hitem, comma, rfl⟩
  · obtain ⟨x, hx, rfl⟩ := List.mem_map.1 hitem
    exact Or.inr ⟨x, hx, comma, rfl⟩

/-- The comma of a row does not make it an import statement. -/
theorem isImport_of_comma (h : isImport (item.row comma)) : isImport (item.row false) := by
  cases comma with
  | false => exact h
  | true =>
    unfold isImport at h
    split at h
    · rename_i c rest found
      obtain ⟨y, hbody, hrest⟩ := after?_comma item.body (by decide) found
      cases y with
      | nil =>
        obtain ⟨rfl, -⟩ := List.cons.inj hrest
        exact absurd h (by decide)
      | cons d y =>
        obtain ⟨rfl, -⟩ := List.cons.inj hrest
        have again : Text.after? (item.row false) "import".toList = some (c :: (y ++ item.ending)) := by
          rw [after?_eq_some_iff]
          simp [Item.row, hbody]
        rw [isImport, again]
        exact h
    · simp at h

theorem isImport_ofIdentifier (x : Text) (comma : Bool) :
    isImport ((Item.ofIdentifier x).row comma) = false := by
  cases comma <;> rfl

/-- A line without commas that stands in a row does not need its comma. -/
theorem infix_of_comma (hne : line ≠ []) (h : ',' ∉ line) (inside : line <:+: item.row comma) :
    line <:+: item.row false := by
  cases comma with
  | false => exact inside
  | true =>
    rcases (infix_append_cons_iff hne h item.body item.ending).1 inside with inside | inside
    · exact inside.trans List.infix_append_left
    · exact inside.trans List.infix_append_right

theorem not_infix_ofIdentifier {x : Text} (hx : IsWord x) (hline : '\'' ∈ line) (comma : Bool) :
    ¬ line <:+: (Item.ofIdentifier x).row comma := by
  intro inside
  have hmem := inside.subset hline
  have hword : '\'' ∉ x := hx.notMem (by decide)
  cases comma <;> simp [Item.row, Item.ofIdentifier, hword] at hmem

/-- A character that is neither white space nor a comma nor in the identifier keeps a line from
listing the identifier. -/
theorem not_hits_of_mem {x body : Text} (hx : IsWord x) (oneLine : '\n' ∉ body) {c : Char}
    (hc : c ∈ body) (letter : isNameLetter c = false) (space : Pattern.isSpaceOrTab c = false)
    (comma : c ≠ ',') (carriage : c ≠ '\r') : ¬ (Pattern.entry x).Hits (terminate body) := by
  intro hit
  have opens : Pattern.opensEntry x body := ((oneLine_entry hx).hits_terminated body).1 hit
  have hword : c ∉ x := hx.notMem letter
  have := Pattern.mem_of_opensEntry oneLine opens hc
  simp [hword, space, comma, carriage] at this

/-- An identifier is not listed by an import statement. -/
theorem not_hits_terminate {x : Text} (hx : IsWord x) (h : IsImportLine line) :
    ¬ (Pattern.entry x).Hits (terminate line) :=
  not_hits_of_mem hx h.oneLine h.quoted (by decide) (by decide) (by decide) (by decide)

end Rows

namespace Frame.Sound

variable {frame : Frame} {J K : List Text}

theorem tidy_items (sound : frame.Sound) (hK : ∀ x ∈ K, IsWord x) :
    ∀ item ∈ frame.items K, item.Tidy := by
  intro item hitem
  rcases List.mem_append.1 hitem with hitem | hitem
  · exact sound.tidy item (by simpa using hitem)
  · obtain ⟨x, hx, rfl⟩ := List.mem_map.1 hitem
    exact tidy_ofIdentifier (hK x hx)

theorem terminated_itemRows (sound : frame.Sound) (hK : ∀ x ∈ K, IsWord x) :
    ∀ row ∈ frame.itemRows K, Terminated row :=
  terminated_listing (sound.tidy_items hK)

theorem terminated_front (sound : frame.Sound) (hJ : ∀ j ∈ J, IsImportLine j) :
    ∀ row ∈ frame.front J, Terminated row := by
  intro row hrow
  have around := sound.terminated row
  have block : row ∈ J.map terminate → Terminated row := by
    intro h
    obtain ⟨j, hj, rfl⟩ := List.mem_map.1 h
    exact terminated_terminate (hJ j hj).oneLine
  cases h : frame.upper <;> simp only [Frame.front, h, if_true, if_false, Bool.false_eq_true,
    List.mem_append] at hrow around
  · exact around (Or.inl hrow)
  · rcases hrow with (hrow | hrow) | hrow
    · exact around (Or.inl hrow)
    · exact block hrow
    · exact around (Or.inr hrow)

theorem terminated_above (sound : frame.Sound) (hK : ∀ x ∈ K, IsWord x) :
    ∀ row ∈ frame.above K, Terminated row := by
  intro row hrow
  rcases Frame.mem_above hrow with hrow | hrow
  · exact sound.terminated row hrow
  · exact sound.terminated_itemRows hK row hrow

theorem rows_below (sound : frame.Sound) (hK : ∀ x ∈ K, IsWord x) :
    (frame.below K).rows =
      (if frame.upper then frame.second ++ frame.itemRows K else []) ++ frame.rest.rows := by
  have terminated : ∀ row ∈ frame.second ++ frame.itemRows K, Terminated row := by
    intro row hrow
    rcases List.mem_append.1 hrow with hrow | hrow
    · exact sound.terminated row (List.mem_append_right _ hrow)
    · exact sound.terminated_itemRows hK row hrow
  cases h : frame.upper with
  | false => simp [Frame.below, h]
  | true => simpa [Frame.below, h] using rows_append terminated frame.rest

theorem importPlace (sound : frame.Sound) (hK : ∀ x ∈ K, IsWord x) :
    ImportPlace (frame.above K) (frame.below K) where
  terminated := sound.terminated_above hK
  last := by
    cases h : frame.upper with
    | true => simpa [Frame.above, h] using (sound.upper_place h).1
    | false =>
      obtain ⟨last, hne⟩ := sound.lower_place h
      have pos : frame.second.length ≠ 0 := by simpa using hne
      simp [Frame.above, h, importRows_append, last, pos]
  none_below := by
    rw [sound.rows_below hK]
    cases h : frame.upper with
    | false => simpa using sound.rest_place
    | true =>
      have none_between := (sound.upper_place h).2.2
      intro row hrow
      rw [if_pos rfl, List.mem_append, List.mem_append] at hrow
      rcases hrow with (hrow | hrow) | hrow
      · exact none_between row (List.mem_append_left _ hrow)
      · rcases mem_itemRows hrow with ⟨item, hitem, comma, rfl⟩ | ⟨x, -, comma, rfl⟩
        · have bare := none_between (item.row false)
            (List.mem_append_right _ (List.mem_map.2 ⟨item, by simpa using hitem, rfl⟩))
          rw [← Bool.not_eq_true] at bare ⊢
          exact fun himport => bare (isImport_of_comma himport)
        · exact isImport_ofIdentifier x comma
      · exact sound.rest_place row hrow

theorem mem_rows_below (sound : frame.Sound) (hK : ∀ x ∈ K, IsWord x) {row : Text}
    (h : row ∈ (frame.below K).rows) :
    row ∈ frame.first ++ frame.second ++ frame.rest.rows ∨ row ∈ frame.itemRows K := by
  rw [sound.rows_below hK, List.mem_append] at h
  rcases h with h | h
  · split at h
    · rcases List.mem_append.1 h with h | h
      · exact Or.inl (by simp [h])
      · exact Or.inr h
    · simp at h
  · exact Or.inl (by simp [h])

/-- The line is looked up in the block of import lines alone. -/
theorem foreign (sound : frame.Sound) (hK : ∀ x ∈ K, IsWord x) {line identifier : Text}
    (hline : IsImportLine line) (lacks : frame.Lacks line identifier)
    (others : ∀ other ∈ J, line <:+: other → line = other) :
    Foreign line (frame.above K) J (frame.below K) := by
  have in_items : ∀ row ∈ frame.itemRows K, ¬ line <:+: row := by
    intro row hrow
    rcases mem_itemRows hrow with ⟨item, hitem, comma, rfl⟩ | ⟨x, hx, comma, rfl⟩
    · intro inside
      refine lacks.line (item.row false) ?_ (infix_of_comma hline.ne_nil hline.no_comma inside)
      simpa [Frame.rows] using Or.inr (Or.inr (Or.inl ⟨item, hitem, rfl⟩))
    · exact not_infix_ofIdentifier (hK x hx) hline.quoted comma
  have in_frame : ∀ row ∈ frame.first ++ frame.second ++ frame.rest.rows, ¬ line <:+: row := by
    intro row hrow
    apply lacks.line row
    simp only [Frame.rows, List.mem_append] at hrow ⊢
    rcases hrow with (hrow | hrow) | hrow <;> simp [hrow]
  refine ⟨fun row hrow => ?_, fun row hrow => ?_, others⟩
  · rcases Frame.mem_above hrow with hrow | hrow
    · exact in_frame row (List.mem_append_left _ hrow)
    · exact in_items row hrow
  · rcases sound.mem_rows_below hK hrow with hrow | hrow
    · exact in_frame row hrow
    · exact in_items row hrow

end Frame.Sound

end ComponentForge.Index

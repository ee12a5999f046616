import ComponentForge.Proofs.Index.Barrel
import ComponentForge.Proofs.Index.ZoneRows

/-!
# Bindings of an index file

An import line binds the identifier that is its second word, and a row of the export zone lists the
one in front of its comma. An index file is consistent if its lines bind what its zone lists, in the same
order, and none of it twice. Of a barrel both sides are read back from its text.
-/

namespace ComponentForge.Index

open Text Names

/-- The second word of an import line. -/
def boundName (line : Text) : Text :=
  (line.drop "import ".toList.length).takeWhile (· != ' ')

def importLines (text : Text) : List Text :=
  text.lines.filter isImport

/-- What a row of a zone lists, without indentation and comma. -/
def listedName (row : Text) : Text :=
  ((Text.line row).dropWhile (· == ' ')).takeWhile (· != ',')

/-- The identifiers of the rows inside the export zone. -/
def listedNames (text : Text) : List Text :=
  match ExportZone.locate? text exportMarker with
  | some zone => (zone.inner text).map listedName
  | none => []

/-- The import lines bind what the zone lists, in the same order and nothing twice. -/
def Consistent (text : Text) : Prop :=
  (importLines text).map boundName = listedNames text ∧ ((importLines text).map boundName).Nodup

instance (text : Text) : Decidable (Consistent text) :=
  inferInstanceAs (Decidable (_ ∧ _))

section Lines

variable {line x file lead : Text}

theorem takeWhile_append_cons {c : Char} (h : c ∉ x) (rest : Text) :
    (x ++ c :: rest).takeWhile (· != c) = x := by
  induction x with
  | nil => simp
  | cons d x ih =>
    rw [List.mem_cons, not_or] at h
    simp [Ne.symm h.1, ih h.2]

theorem boundName_importOf (hx : IsWord x) (hlead : lead ∈ importLeads) :
    boundName (importOf (subject x lead file)) = x := by
  obtain ⟨more, rfl⟩ : ∃ more, lead = ' ' :: more := by
    rcases List.mem_cons.1 hlead with rfl | hlead
    · exact ⟨_, rfl⟩
    · exact ⟨_, List.mem_singleton.1 hlead⟩
  have spaced : importOf (subject x (' ' :: more) file) =
      "import ".toList ++ (x ++ ' ' :: (more ++ (file ++ ['\'']) ++ [';'])) := by
    simp [importOf, subject]
  rw [boundName, spaced, List.drop_left]
  exact takeWhile_append_cons (hx.notMem (by decide)) _

theorem line_terminate (h : ∀ c ∈ line.getLast?, c ≠ '\r') : Text.line (terminate line) = line := by
  induction line with
  | nil => rfl
  | cons c rest ih =>
    have unended : rest ++ ['\n'] ≠ [] := by simp
    have further : c = '\r' → rest ++ ['\n'] ≠ ['\n'] := by
      rintro rfl ended
      obtain rfl : rest = [] := by simpa using ended
      exact h '\r' (by simp) rfl
    have ends : ∀ d ∈ rest.getLast?, d ≠ '\r' := by
      intro d hd
      apply h d
      rw [List.getLast?_cons, Option.mem_def.1 hd]
      rfl
    have ih := ih ends
    rw [terminate] at ih
    rw [terminate, List.cons_append, Text.line, ih]
    · exact fun _ ended => unended ended
    · exact further

end Lines

namespace IsImportLine

theorem line_terminate {line : Text} (h : IsImportLine line) : Text.line (terminate line) = line := by
  apply Index.line_terminate
  intro c hc
  have nonblank := last_of_trimEnd_eq h.trimmed c hc
  rintro rfl
  simp [isBlank_carriageReturn] at nonblank

end IsImportLine

section Rows

variable {x : Text}

/-- The line of an entry, read back. -/
theorem line_ofIdentifier (hx : IsWord x) (comma : Bool) :
    Text.line ((Item.ofIdentifier x).row comma) = ' ' :: ' ' :: (x ++ if comma then [','] else []) := by
  have row : (Item.ofIdentifier x).row comma =
      terminate (' ' :: ' ' :: (x ++ if comma then [','] else [])) := by
    cases comma <;> simp [Item.row, Item.ofIdentifier, terminate]
  rw [row]
  apply line_terminate
  intro c hc
  rintro rfl
  have hmem := List.mem_of_getLast? hc
  have letters : '\r' ∉ x := hx.notMem (by decide)
  cases comma <;> simp [letters] at hmem

theorem listedName_ofIdentifier (hx : IsWord x) (comma : Bool) :
    listedName ((Item.ofIdentifier x).row comma) = x := by
  have letters : ',' ∉ x := hx.notMem (by decide)
  obtain ⟨c, rest, rfl⟩ := List.exists_cons_of_ne_nil hx.ne_nil
  have unindented : (c == ' ') = false := by
    have blank : ' ' ∉ c :: rest := hx.notMem (by decide)
    simp only [beq_eq_false_iff_ne, ne_eq]
    rintro rfl
    exact blank List.mem_cons_self
  rw [listedName, line_ofIdentifier hx]
  simp only [List.dropWhile_cons, beq_self_eq_true, if_true, List.cons_append, unindented,
    Bool.false_eq_true, if_false]
  rw [← List.cons_append]
  cases comma with
  | true => exact takeWhile_append_cons letters []
  | false =>
    have all : ∀ d ∈ c :: rest, (d != ',') = true := by
      intro d hd
      simp only [bne_iff_ne, ne_eq]
      rintro rfl
      exact letters hd
    simpa using List.takeWhile_eq_self_iff.2 all

end Rows

end ComponentForge.Index

namespace ComponentForge.Barrel

open Index Text

variable (barrel : Barrel)

/-- The rows of the entries. -/
def entryRows (identifiers : List Text) : List Text :=
  listing false (identifiers.map .ofIdentifier)

theorem mem_entryRows {identifiers : List Text} {row : Text} (h : row ∈ entryRows identifiers) :
    ∃ x ∈ identifiers, ∃ comma, row = (Item.ofIdentifier x).row comma := by
  obtain ⟨item, hitem, comma, rfl⟩ := mem_listing h
  obtain ⟨x, hx, rfl⟩ := List.mem_map.1 hitem
  exact ⟨x, hx, comma, rfl⟩

theorem names_entryRows {identifiers : List Text} (h : ∀ x ∈ identifiers, IsWord x) :
    (entryRows identifiers).map listedName = identifiers := by
  induction identifiers with
  | nil => rfl
  | cons x more ih =>
    have rest := ih fun y hy => h y (List.mem_cons_of_mem x hy)
    rw [entryRows] at rest ⊢
    rw [List.map_cons, listing, List.map_cons, listedName_ofIdentifier (h x List.mem_cons_self), rest]

theorem rows_text : barrel.text.rows = barrel.imports.map terminate ++
    "export \x7b\n".toList :: (entryRows barrel.identifiers ++ ["\x7d;\n".toList]) := by
  have rows := sound.rows_text barrel.are_lines barrel.are_words
  have below := sound.rows_below barrel.are_words
  have rest : frame.rest.rows = ["\x7d;\n".toList] := by decide
  have zone : frame.itemRows barrel.identifiers = entryRows barrel.identifiers := rfl
  have above : frame.above barrel.identifiers = [] := rfl
  have second : frame.second = ["export \x7b\n".toList] := rfl
  rw [rest, second, if_pos (show frame.upper = true from rfl)] at below
  rw [text_eq, rows, below, above, zone]
  simp only [List.nil_append, List.cons_append]

theorem lines_text : barrel.text.lines = barrel.imports ++
    "export \x7b".toList :: ((entryRows barrel.identifiers).map Text.line ++ ["\x7d;".toList]) := by
  have opening : Text.line "export \x7b\n".toList = "export \x7b".toList := by decide
  have closing : Text.line "\x7d;\n".toList = "\x7d;".toList := by decide
  have imports : (barrel.imports.map terminate).map Text.line = barrel.imports := by
    rw [List.map_map]
    refine (List.map_congr_left fun line hline => ?_).trans (List.map_id _)
    exact (barrel.are_lines line hline).line_terminate
  rw [Text.lines, rows_text]
  simp only [List.map_append, List.map_cons, List.map_nil, imports, opening, closing]

/-- The zone of a barrel ends behind its import lines and its entries. -/
theorem locate?_text : ExportZone.locate? barrel.text exportMarker = some
    ⟨barrel.imports.length + 1, barrel.imports.length + barrel.identifiers.length + 2⟩ := by
  rw [text_eq, sound.locate?_text barrel.are_lines barrel.are_words]
  simp only [frame, Frame.front, Frame.items, if_true, Option.toList_none, List.nil_append,
    List.length_append, List.length_map, List.length_cons, List.length_nil]
  congr 2 <;> omega

theorem importLines_text : importLines barrel.text = barrel.imports := by
  have statements : barrel.imports.filter isImport = barrel.imports := by
    rw [List.filter_eq_self]
    exact fun line hline => (barrel.are_lines line hline).statement
  have entries : ((entryRows barrel.identifiers).map Text.line).filter isImport = [] := by
    rw [List.filter_eq_nil_iff]
    intro line hline
    obtain ⟨row, hrow, rfl⟩ := List.mem_map.1 hline
    obtain ⟨x, hx, comma, rfl⟩ := mem_entryRows hrow
    rw [line_ofIdentifier (barrel.are_words x hx), Bool.not_eq_true]
    rfl
  have opening : isImport "export \x7b".toList = false := by decide
  have closing : ["\x7d;".toList].filter isImport = [] := by decide
  rw [importLines, lines_text, List.filter_append, List.filter_cons, List.filter_append, statements,
    entries, closing]
  simp only [opening, Bool.false_eq_true, if_false, List.append_nil]

theorem listedNames_text : listedNames barrel.text = barrel.identifiers := by
  have inner : ExportZone.inner
      ⟨barrel.imports.length + 1, barrel.imports.length + barrel.identifiers.length + 2⟩ barrel.text =
        entryRows barrel.identifiers := by
    have upper : (barrel.imports.map terminate ++ ["export \x7b\n".toList]).length =
        barrel.imports.length + 1 := by simp
    have through : (barrel.imports.map terminate ++ ["export \x7b\n".toList] ++
        entryRows barrel.identifiers).length =
          barrel.imports.length + barrel.identifiers.length + 2 - 1 := by
      rw [List.length_append, upper, entryRows, length_listing, List.length_map]
      omega
    rw [ExportZone.inner, rows_text, List.append_cons, ← List.append_assoc]
    dsimp only
    rw [List.take_left' through, List.drop_left' upper]
  rw [listedNames, locate?_text]
  dsimp only
  rw [inner, names_entryRows barrel.are_words]

/-- A barrel is consistent if its import lines bind its identifiers in their order. -/
theorem consistent_text (h : barrel.imports.map boundName = barrel.identifiers) :
    Consistent barrel.text := by
  rw [Consistent, importLines_text, listedNames_text, h]
  exact ⟨rfl, barrel.nodup_identifiers⟩

end ComponentForge.Barrel

import ComponentForge.Proofs.Index.Search
import ComponentForge.Proofs.Index.Zone
import ComponentForge.Proofs.Letter.NameLetter

/-!
# The entries of an export zone

The end of a zone is a list of items, and the comma style says whether the last of them has a comma
like the others. The row of an item that lists an identifier is the only kind of row in which a
search for this identifier hits, with or without its comma.
-/

namespace ComponentForge.Index

open Text

/-- A row of an export zone without its comma: what stands before the comma and the line break. -/
structure Item where
  body : Text
  ending : Text

namespace Item

def row (item : Item) (comma : Bool) : Text :=
  if comma then item.body ++ ',' :: item.ending else item.body ++ item.ending

/-- The body is what is left of the row without its line break, white space and comma. -/
structure Tidy (item : Item) : Prop where
  oneLine : '\n' ∉ item.body
  trimmed : item.body.trimEnd = item.body
  bare : item.body.endsWith ',' = false
  broken : ∃ returns, (∀ c ∈ returns, c = '\r') ∧ item.ending = returns ++ ['\n']

def ofIdentifier (identifier : Text) : Item :=
  ⟨' ' :: ' ' :: identifier, ['\n']⟩

end Item

/-- The rows of the items; `trailing` tells whether a comma follows the last one. -/
def listing (trailing : Bool) : List Item → List Text
  | [] => []
  | item :: more => item.row (trailing || !more.isEmpty) :: listing trailing more

/-- The content of a row ends with a comma. -/
def commaEnded (row : Text) : Bool :=
  row.splitBreak.1.trimEnd.endsWith ','

/-- The row with a comma after its content, in place of the white space there. -/
def withComma (row : Text) : Text :=
  row.splitBreak.1.trimEnd ++ ',' :: row.splitBreak.2

/-- The row without the comma at the end of its content and the white space after it. -/
def withoutComma (row : Text) : Text :=
  row.splitBreak.1.trimEnd.dropLast ++ row.splitBreak.2

section Rows

variable {item : Item} {items : List Item} {trailing comma : Bool}

theorem splitBreak_append {body ending : Text}
    (hbody : ∀ c ∈ body.getLast?, c ≠ '\n' ∧ c ≠ '\r')
    (hending : ∀ c ∈ ending, c = '\n' ∨ c = '\r') : splitBreak (body ++ ending) = (body, ending) := by
  apply splitEnd_append_of_last
  · intro c hc
    simpa using hbody c hc
  · intro c hc
    simpa using hending c hc

theorem splitBreak_of_terminated {row : Text} (h : Terminated row) :
    '\n' ∉ row.splitBreak.1 ∧ ∃ returns, row.splitBreak.2 = returns ++ ['\n'] ∧ '\n' ∉ returns ∧
      ∀ c ∈ returns, c = '\r' := by
  obtain ⟨body, hbody, rfl⟩ := h
  have whole := splitEnd_append (fun c => c == '\n' || c == '\r') (body ++ ['\n'])
  have breaks : ∀ c ∈ (splitBreak (body ++ ['\n'])).2, c = '\n' ∨ c = '\r' := by
    intro c hc
    simpa using splitEnd_ending c hc
  change (splitBreak (body ++ ['\n'])).1 ++ (splitBreak (body ++ ['\n'])).2 = _ at whole
  rcases List.eq_nil_or_concat (splitBreak (body ++ ['\n'])).2 with none | ⟨returns, last, hending⟩
  · rw [none, List.append_nil] at whole
    have last : '\n' ∈
        (splitEnd (fun c => c == '\n' || c == '\r') (body ++ ['\n'])).1.getLast? := by
      rw [show (splitEnd _ (body ++ ['\n'])).1 = _ from whole]
      simp
    have kept := splitEnd_body '\n' last
    simp at kept
  · rw [hending, List.concat_eq_append, ← List.append_assoc] at whole
    obtain ⟨same, hlast⟩ := List.append_inj' whole rfl
    obtain rfl : last = '\n' := by simpa using hlast
    rw [← same, List.mem_append, not_or] at hbody
    refine ⟨hbody.1, returns, by rw [hending, List.concat_eq_append], hbody.2, fun c hc => ?_⟩
    rcases breaks c (by simp [hending, hc]) with rfl | rfl
    · exact absurd hc hbody.2
    · rfl

theorem splitBreak_parts (row : Text) : row.splitBreak.1 ++ row.splitBreak.2 = row :=
  splitEnd_append _ row

theorem isBlank_splitBreak (row : Text) : ∀ c ∈ row.splitBreak.2, isBlank c := by
  intro c hc
  have isBreak : c = '\n' ∨ c = '\r' := by simpa using splitEnd_ending c hc
  rcases isBreak with rfl | rfl
  · exact isBlank_lineFeed
  · exact isBlank_carriageReturn

/-- A line break is white space, so that the comma of a row is seen with it and without it. -/
theorem trimEnd_splitBreak (row : Text) : row.splitBreak.1.trimEnd = row.trimEnd := by
  conv => rhs; rw [← splitBreak_parts row]
  exact (trimEnd_append_blank _ (isBlank_splitBreak row)).symm

theorem commaEnded_eq (row : Text) : commaEnded row = row.trimEnd.endsWith ',' := by
  rw [commaEnded, trimEnd_splitBreak]

/-- The white space that goes when a row is trimmed before its line break. -/
theorem exists_blanks (row : Text) : ∃ blanks, row.splitBreak.1 = row.splitBreak.1.trimEnd ++ blanks ∧
    ∀ c ∈ blanks, isBlank c :=
  ⟨_, (splitEnd_append isBlank row.splitBreak.1).symm, fun c hc => splitEnd_ending c hc⟩

/-- The parts of a row: its content, the white space after it and its line break. -/
structure RowParts (row body blanks ending : Text) : Prop where
  whole : row = body ++ (blanks ++ ending)
  trimmed : ∀ c ∈ body.getLast?, isBlank c = false
  blank : ∀ c ∈ blanks, isBlank c
  /-- All line feeds and carriage returns at the end belong to the line break. -/
  unbroken : ∀ c ∈ blanks.getLast?, c ≠ '\n' ∧ c ≠ '\r'
  breaks : ∀ c ∈ ending, c = '\n' ∨ c = '\r'

theorem exists_rowParts (row : Text) :
    ∃ blanks, RowParts row row.splitBreak.1.trimEnd blanks row.splitBreak.2 := by
  obtain ⟨blanks, hblanks, blank⟩ := exists_blanks row
  refine ⟨blanks, ?_, fun c hc => splitEnd_body c hc, blank, fun c hc => ?_, fun c hc => ?_⟩
  · rw [← List.append_assoc, ← hblanks, splitBreak_parts]
  · have last : c ∈ row.splitBreak.1.getLast? := by
      rw [hblanks, List.getLast?_append]
      exact Option.mem_def.2 (by rw [Option.mem_def.1 hc]; rfl)
    simpa using splitEnd_body c last
  · simpa using splitEnd_ending c hc

namespace RowParts

variable {row body blanks ending : Text} (parts : RowParts row body blanks ending)

include parts

theorem splitBreak_eq : row.splitBreak = (body ++ blanks, ending) := by
  rw [parts.whole, ← List.append_assoc]
  refine splitBreak_append (fun c hc => ?_) parts.breaks
  rw [List.getLast?_append, Option.mem_def] at hc
  cases last : blanks.getLast? with
  | some d =>
    rw [last] at hc
    exact parts.unbroken c (last.trans hc)
  | none =>
    rw [last] at hc
    have visible := parts.trimmed c hc
    constructor <;> rintro rfl <;> exact absurd visible (by decide)

theorem trimEnd_eq : row.splitBreak.1.trimEnd = body := by
  rw [parts.splitBreak_eq]
  exact trimEnd_append_of_last parts.trimmed parts.blank

theorem withComma_eq : withComma row = body ++ ',' :: ending := by
  rw [withComma, parts.trimEnd_eq, parts.splitBreak_eq]

end RowParts

/-- A row with a line feed keeps it when its end before the line break changes. -/
theorem terminated_of_trimmed {row body : Text} (h : Terminated row)
    (hbody : ∀ c ∈ body, c ∈ row.splitBreak.1.trimEnd ∨ c = ',') :
    Terminated (body ++ row.splitBreak.2) := by
  obtain ⟨unbroken, returns, hending, hreturns, -⟩ := splitBreak_of_terminated h
  refine ⟨body ++ returns, ?_, by simp [hending]⟩
  rw [List.mem_append, not_or]
  refine ⟨fun mem => ?_, hreturns⟩
  rcases hbody _ mem with kept | comma
  · obtain ⟨blanks, hblanks, -⟩ := exists_blanks row
    rw [hblanks] at unbroken
    exact unbroken (List.mem_append_left _ kept)
  · exact absurd comma (by decide)

theorem terminated_comma {row : Text} (h : Terminated row) :
    Terminated (row.splitBreak.1.trimEnd ++ ',' :: row.splitBreak.2) := by
  have regroup : row.splitBreak.1.trimEnd ++ ',' :: row.splitBreak.2 =
      row.splitBreak.1.trimEnd ++ [','] ++ row.splitBreak.2 := by simp
  rw [regroup]
  exact terminated_of_trimmed h fun c hc => by simpa using hc

theorem terminated_bare {row : Text} (h : Terminated row) :
    Terminated (row.splitBreak.1.trimEnd.dropLast ++ row.splitBreak.2) :=
  terminated_of_trimmed h fun _ hc => Or.inl ((List.dropLast_sublist _).subset hc)

theorem Item.Tidy.break_of_mem (tidy : item.Tidy) {c : Char} (hc : c ∈ item.ending) :
    c = '\n' ∨ c = '\r' := by
  obtain ⟨returns, hreturns, hending⟩ := tidy.broken
  rw [hending] at hc
  rcases List.mem_append.1 hc with hc | hc
  · exact Or.inr (hreturns c hc)
  · exact Or.inl (by simpa using hc)

theorem Item.Tidy.splitBreak_row (tidy : item.Tidy) (comma : Bool) :
    (item.row comma).splitBreak = (if comma then item.body ++ [','] else item.body, item.ending) := by
  cases comma with
  | true =>
    have regroup : item.row true = item.body ++ [','] ++ item.ending := by simp [row]
    rw [regroup, splitBreak_append (by simp) fun c => tidy.break_of_mem]
    rfl
  | false =>
    have hrow : item.row false = item.body ++ item.ending := rfl
    have nonblank := last_of_trimEnd_eq tidy.trimmed
    rw [hrow, splitBreak_append _ fun c => tidy.break_of_mem]
    · rfl
    · intro c hc
      have hblank := nonblank c hc
      constructor <;> rintro rfl <;> simp [isBlank_lineFeed, isBlank_carriageReturn] at hblank

theorem trimEnd_comma (body : Text) : (body ++ [',']).trimEnd = body ++ [','] :=
  trimEnd_of_last (by simp; rfl)

theorem endsWith_comma (body : Text) : (body ++ [',']).endsWith ',' = true := by
  simp [endsWith]

theorem trimEnd_withComma (row : Text) : (withComma row).trimEnd = row.trimEnd ++ [','] := by
  have regroup : withComma row = (row.splitBreak.1.trimEnd ++ [',']) ++ row.splitBreak.2 := by
    simp [withComma]
  rw [regroup, trimEnd_append_blank _ (isBlank_splitBreak row), trimEnd_comma, trimEnd_splitBreak]

theorem Item.Tidy.commaEnded_row (tidy : item.Tidy) (comma : Bool) :
    commaEnded (item.row comma) = comma := by
  rw [commaEnded, tidy.splitBreak_row]
  cases comma with
  | true => simp [trimEnd_comma, endsWith_comma]
  | false => simp [tidy.trimmed, tidy.bare]

theorem Item.Tidy.trimEnd_row (tidy : item.Tidy) (comma : Bool) :
    (item.row comma).trimEnd.endsWith ',' = comma := by
  rw [← commaEnded_eq, tidy.commaEnded_row]

theorem Item.Tidy.withComma_row (tidy : item.Tidy) : withComma (item.row false) = item.row true := by
  rw [withComma, tidy.splitBreak_row]
  simp [tidy.trimmed, Item.row]

theorem Item.Tidy.withoutComma_row (tidy : item.Tidy) :
    withoutComma (item.row true) = item.row false := by
  rw [withoutComma, tidy.splitBreak_row]
  simp [trimEnd_comma, Item.row]

theorem Item.Tidy.terminated_row (tidy : item.Tidy) (comma : Bool) :
    Terminated (item.row comma) := by
  obtain ⟨returns, hreturns, hending⟩ := tidy.broken
  have none_returns : '\n' ∉ returns := fun h => absurd (hreturns _ h) (by decide)
  have oneLine := tidy.oneLine
  cases comma with
  | true => exact ⟨item.body ++ ',' :: returns, by simp [oneLine, none_returns], by simp [row, hending]⟩
  | false => exact ⟨item.body ++ returns, by simp [oneLine, none_returns], by simp [row, hending]⟩

theorem listing_append {after : List Item} (h : trailing = true ∨ after ≠ []) (before : List Item) :
    listing trailing (before ++ after) = before.map (·.row true) ++ listing trailing after := by
  induction before with
  | nil => rfl
  | cons first more ih =>
    have comma : (trailing || !(more ++ after).isEmpty) = true := by
      rcases h with rfl | h
      · rfl
      · simp [h]
    rw [List.cons_append, listing, ih, comma]
    rfl

theorem listing_concat (trailing : Bool) (items : List Item) (item : Item) :
    listing trailing (items ++ [item]) = items.map (·.row true) ++ [item.row trailing] := by
  rw [listing_append (Or.inr (by simp))]
  simp [listing]

theorem length_listing (trailing : Bool) (items : List Item) :
    (listing trailing items).length = items.length := by
  induction items with
  | nil => rfl
  | cons first more ih => simp [listing, ih]

theorem mem_listing {row : Text} (h : row ∈ listing trailing items) :
    ∃ item ∈ items, ∃ comma, row = item.row comma := by
  induction items with
  | nil => simp [listing] at h
  | cons first more ih =>
    rcases List.mem_cons.1 h with rfl | h
    · exact ⟨first, List.mem_cons_self, _, rfl⟩
    · obtain ⟨item, hitem, comma, hrow⟩ := ih h
      exact ⟨item, List.mem_cons_of_mem _ hitem, comma, hrow⟩

theorem terminated_listing (tidy : ∀ item ∈ items, item.Tidy) :
    ∀ row ∈ listing trailing items, Terminated row := by
  intro row hrow
  obtain ⟨item, hitem, comma, rfl⟩ := mem_listing hrow
  exact (tidy item hitem).terminated_row comma

/-- Rows above items that all have a comma, and those items. -/
theorem terminated_commas {front : List Text} (hfront : ∀ row ∈ front, Terminated row)
    (tidy : ∀ item ∈ items, item.Tidy) :
    ∀ row ∈ front ++ items.map (·.row true), Terminated row :=
  List.forall_mem_append.2
    ⟨hfront, List.forall_mem_map.2 fun item hitem => (tidy item hitem).terminated_row true⟩

end Rows

section Hits

variable {identifier : Text}

theorem oneLine_entry (h : IsWord identifier) : (Pattern.entry identifier).OneLine :=
  ⟨h.ne_nil, h.notMem (by decide)⟩

theorem isBlank_of_isSpaceOrTab {c : Char} (h : Pattern.isSpaceOrTab c) : isBlank c := by
  simp only [Pattern.isSpaceOrTab, Bool.or_eq_true, beq_iff_eq] at h
  rcases h with rfl | rfl <;> rfl

theorem tidy_ofIdentifier (h : IsWord identifier) : (Item.ofIdentifier identifier).Tidy where
  oneLine := by simp [Item.ofIdentifier, h.notMem (c := '\n') (by decide)]
  trimmed := by
    apply trimEnd_of_last
    intro c hc
    have hlast : c ∈ identifier.getLast? := by
      simpa [Item.ofIdentifier, List.getLast?_cons, List.getLast?_eq_some_getLast h.ne_nil] using hc
    exact h.nonblank (List.mem_of_getLast? hlast)
  bare := by
    have hlast : identifier.getLast h.ne_nil ≠ ',' :=
      fun e => h.notMem (by decide) (e ▸ List.getLast_mem h.ne_nil)
    simp [Item.ofIdentifier, endsWith, List.getLast?_cons, List.getLast?_eq_some_getLast h.ne_nil,
      hlast]
  broken := ⟨[], by simp, rfl⟩

/-- A text with a comma before its line feed does not end the line. -/
theorem atLineEnd_comma {body : Text} (hbody : '\n' ∉ body) (ending : Text) :
    Pattern.atLineEnd (Pattern.skip '\r'
      ((body ++ ',' :: ending).dropWhile Pattern.isSpaceOrTab)) = false := by
  induction body with
  | nil => rfl
  | cons c body ih =>
    obtain ⟨hc, hmore⟩ := List.ne_and_not_mem_of_not_mem_cons hbody
    by_cases hspace : Pattern.isSpaceOrTab c
    · rw [List.cons_append, List.dropWhile_cons_of_pos hspace]
      exact ih hmore
    · rw [List.cons_append, List.dropWhile_cons_of_neg hspace]
      by_cases hreturn : c = '\r'
      · cases body with
        | nil => simp [Pattern.skip, hreturn, Pattern.atLineEnd]
        | cons d body =>
          simp [Pattern.skip, hreturn, Pattern.atLineEnd, (List.ne_of_not_mem_cons hmore).symm]
      · simp [Pattern.skip, hreturn, Pattern.atLineEnd, hc.symm]

/-- Only the comma right after an identifier may belong to its entry. -/
theorem eq_nil_of_closesEntry {body ending : Text} (hbody : '\n' ∉ body)
    (h : Pattern.closesEntry (body ++ ',' :: ending)) : body = [] := by
  cases body with
  | nil => rfl
  | cons c body =>
    exfalso
    obtain ⟨-, hmore⟩ := List.ne_and_not_mem_of_not_mem_cons hbody
    have skipped : ∃ u, '\n' ∉ u ∧
        Pattern.skip ',' (c :: body ++ ',' :: ending) = u ++ ',' :: ending := by
      by_cases hc : c = ','
      · exact ⟨body, hmore, by simp [Pattern.skip, hc]⟩
      · exact ⟨c :: body, hbody, by simp [Pattern.skip, hc]⟩
    obtain ⟨u, hu, hskip⟩ := skipped
    rw [Pattern.closesEntry, hskip, atLineEnd_comma hu] at h
    exact absurd h Bool.false_ne_true

theorem after?_comma (body : Text) {rest ending : Text} (h : ',' ∉ identifier)
    (found : Text.after? (body ++ ',' :: ending) identifier = some rest) :
    ∃ y, body = identifier ++ y ∧ rest = y ++ ',' :: ending := by
  rw [after?_eq_some_iff] at found
  rcases List.append_eq_append_iff.1 found with ⟨y, hy, hbelow⟩ | ⟨y, hbody, hrest⟩
  · cases y with
    | nil => exact ⟨[], by simpa using hy.symm, by simpa using hbelow.symm⟩
    | cons c y =>
      obtain ⟨rfl, -⟩ := List.cons.inj hbelow
      exact absurd (by simp [hy]) h
  · exact ⟨y, hbody, hrest⟩

theorem opensEntry_of_comma (h : IsWord identifier) {body ending : Text}
    (hbody : '\n' ∉ body) (hending : Pattern.skip ',' ending = ending)
    (hit : Pattern.opensEntry identifier (body ++ ',' :: ending)) :
    Pattern.opensEntry identifier (body ++ ending) := by
  induction body with
  | nil =>
    cases identifier with
    | nil => exact absurd rfl h.ne_nil
    | cons c more =>
      have hc := List.ne_of_not_mem_cons (h.notMem (c := ',') (by decide))
      simp [Pattern.opensEntry, Text.after?, hc, Pattern.isSpaceOrTab] at hit
  | cons c body ih =>
    rw [List.cons_append, Pattern.opensEntry, Bool.or_eq_true, Bool.and_eq_true] at hit ⊢
    rcases hit with here | ⟨hspace, further⟩
    · left
      cases found : Text.after? (c :: (body ++ ',' :: ending)) identifier with
      | none => simp [found] at here
      | some rest =>
        obtain ⟨y, hy, rfl⟩ := after?_comma (c :: body) (h.notMem (by decide)) found
        have closes : Pattern.closesEntry (y ++ ',' :: ending) := by simpa [found] using here
        have hline : '\n' ∉ y := fun hmem => hbody (by simp [hy, hmem])
        obtain rfl := eq_nil_of_closesEntry hline closes
        have same : Pattern.closesEntry (',' :: ending) = Pattern.closesEntry ending := by
          simp only [Pattern.closesEntry, hending]
          rfl
        have again : Text.after? (c :: (body ++ ending)) identifier = some ending := by
          rw [after?_eq_some_iff, ← List.cons_append, hy]
          simp
        simpa [again, ← same] using closes
    · exact Or.inr ⟨hspace, ih (List.not_mem_of_not_mem_cons hbody) further⟩

/-- The comma of a row does not make it an entry. -/
theorem hits_of_comma (h : IsWord identifier) {item : Item} (tidy : item.Tidy) {comma : Bool}
    (hit : (Pattern.entry identifier).Hits (item.row comma)) :
    (Pattern.entry identifier).Hits (item.row false) := by
  cases comma with
  | false => exact hit
  | true =>
    refine opensEntry_of_comma h tidy.oneLine ?_ hit
    cases hending : item.ending with
    | nil => rfl
    | cons c ending =>
      have hc : c ≠ ',' := by
        rintro rfl
        have := tidy.break_of_mem (c := ',') (by simp [hending])
        simp at this
      simp [Pattern.skip, hc]

theorem hits_ofIdentifier (identifier : Text) (comma : Bool) :
    (Pattern.entry identifier).Hits ((Item.ofIdentifier identifier).row comma) := by
  have found : ∀ rest, Text.after? (identifier ++ rest) identifier = some rest :=
    fun rest => after?_eq_some_iff.2 rfl
  have opens : ∀ rest, Pattern.closesEntry rest →
      Pattern.opensEntry identifier (identifier ++ rest) := by
    intro rest closes
    cases hwhole : identifier ++ rest with
    | nil => simp [Pattern.opensEntry, ← hwhole, found, closes]
    | cons c more => simp [Pattern.opensEntry, ← hwhole, found, closes]
  cases comma with
  | true =>
    have := opens [',', '\n'] (by decide)
    simp [Pattern.Hits, Item.row, Item.ofIdentifier, Pattern.opensEntry, Pattern.isSpaceOrTab, this]
  | false =>
    have := opens ['\n'] (by decide)
    simp [Pattern.Hits, Item.row, Item.ofIdentifier, Pattern.opensEntry, Pattern.isSpaceOrTab, this]

theorem opensEntry_of_space (h : IsWord identifier) {body : Text}
    (hit : Pattern.opensEntry identifier (' ' :: body)) : Pattern.opensEntry identifier body := by
  cases identifier with
  | nil => exact absurd rfl h.ne_nil
  | cons c more =>
    have hc : ' ' ≠ c := by
      rintro rfl
      exact absurd (h.nonblank List.mem_cons_self) (by decide)
    simpa [Pattern.opensEntry, Text.after?, hc, Pattern.isSpaceOrTab] using hit

theorem eq_of_opensEntry {x y : Text} (hy : IsWord y) (hit : Pattern.opensEntry x y) : x = y := by
  cases y with
  | nil => exact absurd rfl hy.ne_nil
  | cons c more =>
    have no_space : Pattern.isSpaceOrTab c = false := by
      rw [← Bool.not_eq_true]
      intro hspace
      exact absurd (isBlank_of_isSpaceOrTab hspace) (by simp [hy.nonblank List.mem_cons_self])
    rw [Pattern.opensEntry, no_space, Bool.false_and, Bool.or_false] at hit
    cases found : Text.after? (c :: more) x with
    | none => simp [found] at hit
    | some rest =>
      have closes : Pattern.closesEntry rest := by simpa [found] using hit
      rw [after?_eq_some_iff] at found
      cases rest with
      | nil => simpa using found.symm
      | cons d rest =>
        have hd : d ∈ c :: more := by simp [found]
        have plain : d ≠ ',' := fun e => hy.notMem (by decide) (e ▸ hd)
        have nonblank := hy.nonblank hd
        have unspaced : Pattern.isSpaceOrTab d = false := by
          rw [← Bool.not_eq_true]
          intro hspace
          exact absurd (isBlank_of_isSpaceOrTab hspace) (by simp [nonblank])
        have unreturned : d ≠ '\r' := by rintro rfl; simp [isBlank_carriageReturn] at nonblank
        have unbroken : d ≠ '\n' := by rintro rfl; simp [isBlank_lineFeed] at nonblank
        simp [Pattern.closesEntry, Pattern.skip, plain, unspaced, unreturned, unbroken,
          Pattern.atLineEnd] at closes

/-- An entry is listed by its own row only. -/
theorem hits_ofIdentifier_iff {x y : Text} (hx : IsWord x) (hy : IsWord y)
    (comma : Bool) : (Pattern.entry x).Hits ((Item.ofIdentifier y).row comma) ↔ x = y := by
  constructor
  · intro hit
    have bare := hits_of_comma hx (tidy_ofIdentifier hy) hit
    have line : (Pattern.entry x).Hits (' ' :: ' ' :: y) :=
      ((oneLine_entry hx).hits_terminated (' ' :: ' ' :: y)).1 bare
    simp only [Pattern.Hits] at line
    exact eq_of_opensEntry hy (opensEntry_of_space hx (opensEntry_of_space hx line))
  · rintro rfl
    exact hits_ofIdentifier x comma

end Hits

end ComponentForge.Index

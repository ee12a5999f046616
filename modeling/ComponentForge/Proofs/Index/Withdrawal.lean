import ComponentForge.Proofs.Index.Deletion
import ComponentForge.Proofs.Index.Extension

/-!
# Patches taken out of any text

A reversal takes out the first row with the import line and the first row with the entry, and nothing
that it leaves gets to look like a line or an entry. So a text without a second such row has nothing
of the patch afterwards, and goes on having nothing of it when other patches are taken out.
-/

namespace ComponentForge

open Index Text

namespace Index

/-- The row is the identifier with white space before it and white space and commas after it. -/
def Resembles (x row : Text) : Prop :=
  ∃ lead rest, row = lead ++ (x ++ rest) ∧ (∀ c ∈ lead, isBlank c) ∧ ∀ c ∈ rest, c = ',' ∨ isBlank c

/-- At most one of the rows is so. -/
def Lone (p : Text → Prop) (rows : List Text) : Prop :=
  rows.Pairwise fun row other => ¬ (p row ∧ p other)

variable {content new line x row row' : Text}

theorem resembles_iff : Resembles x row ↔ ∃ k < row.length + 1, (row.take k).all isBlank ∧
    x <+: row.drop k ∧ ((row.drop k).drop x.length).all fun c => c == ',' || isBlank c := by
  simp only [List.all_eq_true, Bool.or_eq_true, beq_iff_eq]
  constructor
  · rintro ⟨lead, rest, rfl, blank, closing⟩
    refine ⟨lead.length, by rw [List.length_append]; omega, ?_, ?_, ?_⟩
    · simpa using blank
    · simp
    · simpa using closing
  · rintro ⟨k, -, blank, ⟨rest, hrest⟩, closing⟩
    refine ⟨row.take k, rest, ?_, blank, ?_⟩
    · rw [hrest, List.take_append_drop]
    · rw [← hrest, List.drop_left] at closing
      exact closing

instance (x row : Text) : Decidable (Resembles x row) :=
  decidable_of_iff' _ resembles_iff

instance (p : Text → Prop) [DecidablePred p] (rows : List Text) : Decidable (Lone p rows) :=
  inferInstanceAs (Decidable (rows.Pairwise fun row other => ¬ (p row ∧ p other)))

theorem resembles_of_hits (word : IsWord x) (h : row ∈ content.rows) (hit : (Pattern.entry x).Hits row) :
    Resembles x row := by
  have closing : ∀ rest, '\n' ∉ rest → Pattern.closesEntry rest → ∀ c ∈ rest, c = ',' ∨ isBlank c := by
    intro rest hrest closes c hc
    rcases Pattern.mem_of_closesEntry hrest closes hc with space | comma | rfl
    · exact Or.inr (isBlank_of_isSpaceOrTab space)
    · exact Or.inl comma
    · exact Or.inr isBlank_carriageReturn
  rcases terminated_or_notMem h with ⟨body, hbody, rfl⟩ | oneLine
  · rw [(oneLine_entry word).hits_terminated] at hit
    obtain ⟨lead, rest, rfl, spaces, closes⟩ := opensEntry_iff.1 hit
    refine ⟨lead, rest ++ ['\n'], by simp, fun c hc => isBlank_of_isSpaceOrTab (spaces c hc), ?_⟩
    intro c hc
    rcases List.mem_append.1 hc with hc | hc
    · exact closing rest (fun h => hbody (by simp [h])) closes c hc
    · rw [List.mem_singleton.1 hc]
      exact Or.inr isBlank_lineFeed
  · obtain ⟨lead, rest, rfl, spaces, closes⟩ := opensEntry_iff.1 hit
    exact ⟨lead, rest, rfl, fun c hc => isBlank_of_isSpaceOrTab (spaces c hc),
      closing rest (fun h => oneLine (by simp [h])) closes⟩

/-- A text that does not end with white space ends before white space begins. -/
theorem prefix_of_blank_end {text rest body ending : Text}
    (nonblank : ∀ c ∈ text.getLast?, isBlank c = false) (blank : ∀ c ∈ ending, isBlank c)
    (h : text ++ rest = body ++ ending) : text <+: body := by
  rcases List.append_eq_append_iff.1 h with ⟨more, hbody, -⟩ | ⟨more, htext, hending⟩
  · exact ⟨more, hbody.symm⟩
  · by_cases empty : more = []
    · rw [empty, List.append_nil] at htext
      exact htext ▸ List.prefix_refl _
    · obtain ⟨c, hc⟩ := Option.ne_none_iff_exists'.1 (mt List.getLast?_eq_none_iff.1 empty)
      have last : c ∈ text.getLast? := by
        rw [htext, List.getLast?_append_of_ne_nil _ empty]
        exact hc
      have inside := blank c (by rw [hending]; exact List.mem_append_left _ (List.mem_of_getLast? hc))
      rw [nonblank c last] at inside
      cases inside

/-- What a row without its comma is a part of. -/
theorem exists_comma (ended : row.splitBreak.1.trimEnd.endsWith ',') :
    ∃ blanks, row = row.splitBreak.1.trimEnd.dropLast ++ (',' :: blanks ++ row.splitBreak.2) ∧
      (∀ c ∈ blanks, isBlank c) ∧ ∀ c ∈ row.splitBreak.2, isBlank c := by
  obtain ⟨blanks, parts⟩ := exists_rowParts row
  refine ⟨blanks, ?_, parts.blank, isBlank_splitBreak row⟩
  conv => lhs; rw [parts.whole, exists_dropLast ended]
  simp

/-- An import line in what is left of a row was in the row. -/
theorem infix_of_faded (isLine : IsImportLine line) (faded : Faded row row') (h : line <:+: row') :
    line <:+: row := by
  cases faded with
  | same => exact h
  | unbroken whole =>
    rw [whole]
    exact h.trans (List.prefix_append row' ['\n']).isInfix
  | bare _ ended =>
    obtain ⟨blanks, whole, -, blank⟩ := exists_comma ended
    obtain ⟨before, after, hparts⟩ := h
    have nonblank : ∀ c ∈ (before ++ line).getLast?, isBlank c = false := by
      intro c hc
      rw [List.getLast?_append_of_ne_nil _ isLine.ne_nil] at hc
      exact last_of_trimEnd_eq isLine.trimmed c hc
    have lead := prefix_of_blank_end nonblank blank hparts
    rw [whole]
    exact ((List.suffix_append before line).isInfix.trans lead.isInfix).trans
      (List.prefix_append _ _).isInfix

theorem resembles_of_faded (word : IsWord x) (faded : Faded row row') (h : Resembles x row') :
    Resembles x row := by
  obtain ⟨lead, rest, hparts, hlead, hrest⟩ := h
  cases faded with
  | same => exact ⟨lead, rest, hparts, hlead, hrest⟩
  | unbroken whole =>
    refine ⟨lead, rest ++ ['\n'], by simp [whole, hparts], hlead, fun c hc => ?_⟩
    rcases List.mem_append.1 hc with hc | hc
    · exact hrest c hc
    · rw [List.mem_singleton.1 hc]
      exact Or.inr isBlank_lineFeed
  | bare _ ended =>
    obtain ⟨blanks, whole, hblanks, blank⟩ := exists_comma ended
    have nonblank : ∀ c ∈ (lead ++ x).getLast?, isBlank c = false := by
      intro c hc
      rw [List.getLast?_append_of_ne_nil _ word.ne_nil] at hc
      exact word.nonblank (List.mem_of_getLast? hc)
    have parts : lead ++ x ++ rest =
        row.splitBreak.1.trimEnd.dropLast ++ row.splitBreak.2 := by
      rw [List.append_assoc, hparts]
    obtain ⟨more, hmore⟩ := prefix_of_blank_end nonblank blank parts
    have after : rest = more ++ row.splitBreak.2 := by
      rw [← hmore, List.append_assoc (lead ++ x)] at parts
      exact List.append_cancel_left parts
    have commas : row = lead ++ (x ++ (more ++ (',' :: blanks ++ row.splitBreak.2))) := by
      conv => lhs; rw [whole, ← hmore]
      simp
    refine ⟨lead, _, commas, hlead, fun c hc => ?_⟩
    rcases List.mem_append.1 hc with hc | hc
    · exact hrest c (by rw [after]; exact List.mem_append_left _ hc)
    · rcases List.mem_append.1 hc with hc | hc
      · rcases List.mem_cons.1 hc with rfl | hc
        · exact Or.inl rfl
        · exact Or.inr (hblanks c hc)
      · exact Or.inr (blank c hc)

/-- What is left of an entry row is an entry row. -/
theorem hits_of_faded (word : IsWord x) (faded : Faded row row') (hit : (Pattern.entry x).Hits row) :
    (Pattern.entry x).Hits row' := by
  cases faded with
  | same => exact hit
  | unbroken whole =>
    rw [whole, (oneLine_entry word).hits_terminated] at hit
    exact hit
  | bare terminated ended =>
    obtain ⟨lead, comma, returns, parts⟩ := entryParts_of_hits word terminated hit
    rw [parts.body] at ended ⊢
    rcases parts.comma with rfl | rfl
    · exfalso
      obtain ⟨front, hfront⟩ := eq_append_of_endsWith ended
      have last : ',' ∈ x := by
        apply List.mem_of_getLast?
        have whole := congrArg List.getLast? hfront
        simpa [List.getLast?_append_of_ne_nil _ word.ne_nil] using whole
      exact word.notMem (by decide) last
    · have shorter : (lead ++ (x ++ [','])).dropLast = lead ++ (x ++ []) := by
        rw [← List.append_assoc, List.dropLast_concat, List.append_nil]
      rw [shorter, parts.ending]
      exact hits_of_parts word parts.lead (Or.inl rfl) parts.returns

section Losses

variable {pattern : Pattern} {p : Text → Prop}

theorem exists_of_mem_forall₂ {kept rows : List Text} (faded : List.Forall₂ Faded kept rows)
    (mem : row' ∈ rows) : ∃ row ∈ kept, Faded row row' := by
  induction faded with
  | nil => simp at mem
  | @cons first first' kept rows from_first _ ih =>
    rcases List.mem_cons.1 mem with rfl | mem
    · exact ⟨first, List.mem_cons_self, from_first⟩
    · obtain ⟨row, hrow, from_row⟩ := ih mem
      exact ⟨row, List.mem_cons_of_mem _ hrow, from_row⟩

/-- Every row that is left comes from a row that was there. -/
theorem Loses.faded_from (h : Loses pattern content new) (mem : row' ∈ new.rows) :
    ∃ row ∈ content.rows, Faded row row' := by
  obtain ⟨above, lost, below, kept, hrows, -, sub, faded⟩ := h
  obtain ⟨row, hrow, from_row⟩ := exists_of_mem_forall₂ faded mem
  refine ⟨row, ?_, from_row⟩
  rw [hrows]
  rcases List.mem_append.1 (sub.subset hrow) with hrow | hrow
  · exact List.mem_append_left _ hrow
  · exact List.mem_append_right _ (List.mem_cons_of_mem _ hrow)

/-- If only the row that is lost was so, none is left. -/
theorem Loses.none_left (h : Loses pattern content new)
    (fades : ∀ row row', Faded row row' → p row' → p row) (lone : Lone p content.rows)
    (hit : ∀ row ∈ content.rows, pattern.Hits row → p row) : ∀ row' ∈ new.rows, ¬ p row' := by
  obtain ⟨above, lost, below, kept, hrows, hlost, sub, faded⟩ := h
  intro row' mem so
  obtain ⟨row, hrow, from_row⟩ := exists_of_mem_forall₂ faded mem
  have was := fades row row' from_row so
  have lost_was := hit lost (by simp [hrows]) hlost
  rw [Lone, hrows, List.pairwise_append, List.pairwise_cons] at lone
  rcases List.mem_append.1 (sub.subset hrow) with hrow | hrow
  · exact lone.2.2 row hrow lost List.mem_cons_self ⟨was, lost_was⟩
  · exact lone.2.1.1 row hrow ⟨lost_was, was⟩

theorem Lone.of_forall₂ {kept rows : List Text} (faded : List.Forall₂ Faded kept rows)
    (fades : ∀ row row', Faded row row' → p row' → p row) (lone : Lone p kept) : Lone p rows := by
  induction faded with
  | nil => exact List.Pairwise.nil
  | @cons row row' kept rows from_row faded ih =>
    obtain ⟨first, more⟩ := List.pairwise_cons.1 lone
    refine List.pairwise_cons.2 ⟨fun other mem both => ?_, ih more⟩
    obtain ⟨source, hsource, from_source⟩ := exists_of_mem_forall₂ faded mem
    exact first source hsource ⟨fades _ _ from_row both.1, fades _ _ from_source both.2⟩

theorem Loses.lone (h : Loses pattern content new)
    (fades : ∀ row row', Faded row row' → p row' → p row) (lone : Lone p content.rows) :
    Lone p new.rows := by
  obtain ⟨above, lost, below, kept, hrows, -, sub, faded⟩ := h
  rw [hrows] at lone
  have smaller : (above ++ below).Sublist (above ++ lost :: below) :=
    (List.Sublist.refl above).append (List.sublist_cons_self lost below)
  exact Lone.of_forall₂ faded fades (List.Pairwise.sublist (sub.trans smaller) lone)

end Losses

end Index

namespace IndexPatch

variable {patch other : IndexPatch} {content new : Text}

/-- At most one row has the import line, and at most one looks like the entry and then is one. -/
structure Once (patch : IndexPatch) (content : Text) : Prop where
  line : Lone (patch.importLine <:+: ·) content.rows
  entry : ∀ listed ∈ patch.exportEntry, Lone (Resembles listed.identifier) content.rows
  listed : ∀ listed ∈ patch.exportEntry, ∀ row ∈ content.rows,
    Resembles listed.identifier row → (Pattern.entry listed.identifier).Hits row

theorem once_iff : patch.Once content ↔ Lone (patch.importLine <:+: ·) content.rows ∧
    ∀ listed ∈ patch.exportEntry, Lone (Resembles listed.identifier) content.rows ∧
      ∀ row ∈ content.rows, Resembles listed.identifier row →
        (Pattern.entry listed.identifier).Hits row :=
  ⟨fun h => ⟨h.line, fun listed mem => ⟨h.entry listed mem, h.listed listed mem⟩⟩,
    fun h => ⟨h.1, fun listed mem => (h.2 listed mem).1, fun listed mem => (h.2 listed mem).2⟩⟩

instance (patch : IndexPatch) (content : Text) : Decidable (patch.Once content) :=
  decidable_of_iff' _ once_iff

/-- No row has the import line or looks like the entry. -/
structure Gone (patch : IndexPatch) (content : Text) : Prop where
  line : ∀ row ∈ content.rows, ¬ patch.importLine <:+: row
  entry : ∀ listed ∈ patch.exportEntry, ∀ row ∈ content.rows, ¬ Resembles listed.identifier row

/-- The import line and then the entry, each if it is there. -/
inductive Withdrawn (patch : IndexPatch) (content : Text) : Text → Prop
  | line {mid : Text} {number : Nat} : Taken (.literal patch.importLine) content number mid →
    (∀ listed ∈ patch.exportEntry, ∀ row ∈ mid.rows, ¬ (Pattern.entry listed.identifier).Hits row) →
    Withdrawn patch content mid
  | entry {x new : Text} : (∀ row ∈ content.rows, ¬ patch.importLine <:+: row) →
    patch.exportEntry = some (Index.entry x) → IsWord x → Delisted x content new →
    Withdrawn patch content new
  | both {x mid new : Text} {number : Nat} : Taken (.literal patch.importLine) content number mid →
    patch.exportEntry = some (Index.entry x) → IsWord x → Delisted x mid new →
    Withdrawn patch content new

theorem removeLine?_eq_none_iff (regular : patch.Regular) :
    removeLine? content (.literal patch.importLine) = none ↔
      ∀ row ∈ content.rows, ¬ patch.importLine <:+: row := by
  rw [removeLine?, Option.map_eq_none_iff, regular.line.oneLine_literal.split?_eq_none_iff]
  rfl

/-- Nothing is taken out of a text that has nothing of the patch, and only of such a text. -/
theorem revert?_eq_none_iff (regular : patch.Regular) : patch.revert? content = .ok none ↔
    (∀ row ∈ content.rows, ¬ patch.importLine <:+: row) ∧
      ∀ listed ∈ patch.exportEntry, ∀ row ∈ content.rows,
        ¬ (Pattern.entry listed.identifier).Hits row := by
  rw [← removeLine?_eq_none_iff regular, revert?]
  cases hentry : patch.exportEntry with
  | none => simp
  | some listed =>
    have mem : listed ∈ patch.exportEntry := hentry
    obtain ⟨x, word, rfl⟩ := regular.entries listed mem
    constructor
    · intro h
      cases removed : removeExport ((removeLine? content (.literal patch.importLine)).getD content)
        (Index.entry x) with
      | error fault =>
        dsimp only at h
        rw [removed] at h
        cases h
      | ok shortest =>
        dsimp only at h
        rw [removed] at h
        have both : shortest.or (removeLine? content (.literal patch.importLine)) = none :=
          Except.ok.inj h
        obtain ⟨rfl, none⟩ := Option.or_eq_none_iff.1 both
        rw [none, Option.getD_none] at removed
        refine ⟨none, fun other mem' => ?_⟩
        obtain rfl : Index.entry x = other := by simpa using mem'
        exact removeExport_ne_none word removed
    · rintro ⟨absent, miss⟩
      have missed : removeExport content (Index.entry x) = .ok none :=
        removeExport_eq_none word (miss (Index.entry x) rfl)
      simp only [absent, Option.getD_none, missed]
      rfl

theorem withdrawn_of_revert? (regular : patch.Regular) (h : patch.revert? content = .ok (some new)) :
    patch.Withdrawn content new := by
  rw [revert?] at h
  cases hentry : patch.exportEntry with
  | none =>
    rw [hentry] at h
    obtain ⟨number, taken⟩ := taken_of_removeLine? regular.line.oneLine_literal (Except.ok.inj h)
    exact .line taken (by simp [hentry])
  | some listed =>
    obtain ⟨x, word, rfl⟩ := regular.entries listed hentry
    rw [hentry] at h
    dsimp only at h
    cases removed : removeExport ((removeLine? content (.literal patch.importLine)).getD content)
      (Index.entry x) with
    | error fault =>
      rw [removed] at h
      cases h
    | ok shortest =>
      rw [removed] at h
      have both : shortest.or (removeLine? content (.literal patch.importLine)) = some new :=
        Except.ok.inj h
      cases first : removeLine? content (.literal patch.importLine) with
      | none =>
        rw [first, Option.or_none] at both
        rw [first, both, Option.getD_none] at removed
        exact .entry ((removeLine?_eq_none_iff regular).1 first) hentry word
          (delisted_of_removeExport word removed)
      | some mid =>
        obtain ⟨number, taken⟩ := taken_of_removeLine? regular.line.oneLine_literal first
        rw [first, Option.getD_some] at removed
        cases shortest with
        | none =>
          obtain rfl : mid = new := by simpa [first] using both
          refine .line taken fun other mem => ?_
          obtain rfl : Index.entry x = other := by simpa [hentry] using mem
          exact removeExport_ne_none word removed
        | some shortest =>
          obtain rfl : shortest = new := by simpa using both
          exact .both taken hentry word (delisted_of_removeExport word removed)

/-- What every loss preserves a reversal preserves. -/
theorem Withdrawn.preserves {P : Text → Prop} (h : patch.Withdrawn content new)
    (on_loss : ∀ pattern text left, Loses pattern text left → P text → P left) (start : P content) :
    P new := by
  cases h with
  | line taken _ => exact on_loss _ _ _ taken.loses start
  | entry _ _ _ delisted => exact on_loss _ _ _ delisted.loses start
  | both taken _ _ delisted => exact on_loss _ _ _ delisted.loses (on_loss _ _ _ taken.loses start)

section Losses

variable {pattern : Pattern}

theorem Gone.of_loses (regular : patch.Regular) (loses : Loses pattern content new)
    (gone : patch.Gone content) : patch.Gone new := by
  constructor
  · intro row' mem has
    obtain ⟨row, hrow, faded⟩ := loses.faded_from mem
    exact gone.line row hrow (infix_of_faded regular.line faded has)
  · intro listed hlisted row' mem has
    obtain ⟨row, hrow, faded⟩ := loses.faded_from mem
    obtain ⟨x, word, rfl⟩ := regular.entries listed hlisted
    exact gone.entry _ hlisted row hrow (resembles_of_faded word faded has)

theorem Once.of_loses (regular : patch.Regular) (loses : Loses pattern content new)
    (once : patch.Once content) : patch.Once new := by
  refine ⟨?_, fun listed hlisted => ?_, fun listed hlisted row' mem has => ?_⟩
  · exact loses.lone (fun _ _ => infix_of_faded regular.line) once.line
  · have lone := once.entry listed hlisted
    obtain ⟨x, word, rfl⟩ := regular.entries listed hlisted
    exact loses.lone (fun _ _ => resembles_of_faded word) lone
  · have listed_once := once.listed listed hlisted
    obtain ⟨row, hrow, faded⟩ := loses.faded_from mem
    obtain ⟨x, word, rfl⟩ := regular.entries listed hlisted
    exact hits_of_faded word faded (listed_once row hrow (resembles_of_faded word faded has))

end Losses

/-- After a reversal a text that had the lines once has nothing of the patch. -/
theorem Withdrawn.gone (regular : patch.Regular) (h : patch.Withdrawn content new)
    (once : patch.Once content) : patch.Gone new := by
  have no_line : ∀ {mid : Text} {number : Nat}, Taken (.literal patch.importLine) content number mid →
      ∀ row ∈ mid.rows, ¬ patch.importLine <:+: row := fun taken =>
    taken.loses.none_left (fun _ _ => infix_of_faded regular.line) once.line fun _ _ hit => hit
  have no_entry : ∀ {text left : Text} {x : Text}, patch.exportEntry = some (Index.entry x) → IsWord x →
      patch.Once text → Delisted x text left → ∀ listed ∈ patch.exportEntry, ∀ row ∈ left.rows,
        ¬ Resembles listed.identifier row := by
    intro text left x hentry word once delisted listed hlisted
    obtain rfl : Index.entry x = listed := by simpa [hentry] using hlisted
    exact delisted.loses.none_left (fun _ _ => resembles_of_faded word) (once.entry _ hlisted)
      fun row hrow hit => resembles_of_hits word hrow hit
  cases h with
  | line taken miss =>
    refine ⟨no_line taken, fun listed hlisted row mem has => ?_⟩
    have still := once.of_loses regular taken.loses
    exact miss listed hlisted row mem (still.listed listed hlisted row mem has)
  | entry absent hentry word delisted =>
    refine ⟨fun row' mem has => ?_, no_entry hentry word once delisted⟩
    obtain ⟨row, hrow, faded⟩ := delisted.loses.faded_from mem
    exact absent row hrow (infix_of_faded regular.line faded has)
  | both taken hentry word delisted =>
    refine ⟨fun row' mem has => ?_,
      no_entry hentry word (once.of_loses regular taken.loses) delisted⟩
    obtain ⟨row, hrow, faded⟩ := delisted.loses.faded_from mem
    exact no_line taken row hrow (infix_of_faded regular.line faded has)

/-- Nothing more is taken out of a text that has nothing of the patch. -/
theorem Gone.revert? (regular : patch.Regular) (gone : patch.Gone content) :
    patch.revert? content = .ok none := by
  refine (revert?_eq_none_iff regular).2 ⟨gone.line, fun listed hlisted row mem hit => ?_⟩
  have gone_entry := gone.entry listed hlisted row mem
  obtain ⟨x, word, rfl⟩ := regular.entries listed hlisted
  exact gone_entry (resembles_of_hits word mem hit)

/-- A text with nothing to take out has nothing of the patch. -/
theorem Once.gone (regular : patch.Regular) (once : patch.Once content)
    (h : patch.revert? content = .ok none) : patch.Gone content := by
  obtain ⟨absent, miss⟩ := (revert?_eq_none_iff regular).1 h
  exact ⟨absent, fun listed hlisted row mem has =>
    miss listed hlisted row mem (once.listed listed hlisted row mem has)⟩

end IndexPatch

end ComponentForge

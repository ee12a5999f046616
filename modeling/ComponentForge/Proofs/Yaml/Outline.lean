import ComponentForge.Proofs.Yaml.Stream

/-!
# Reading a printed outline

The tokens of an outline. Each field is read into the tokens of its key and of its datum, and when
the next line starts further left, the blocks that end there are closed first. So what is read of a
line depends only on the margins that are open before it.
-/

namespace ComponentForge.Yaml

theorem atTriple_eq_false {c x : Char} (h : x ≠ c) (rest : Text) : atTriple c (x :: rest) = false := by
  rcases rest with _ | ⟨y, _ | ⟨z, rest⟩⟩ <;> simp [atTriple, h]

/-- A key that is printed as it is and read as one scalar. -/
structure IsKey (name : Text) : Prop where
  ne_nil : name ≠ []
  letters : ∀ c ∈ name, c.isAlphanum
  short : name.length ≤ maxKeyLength

namespace IsKey

instance (name : Text) : Decidable (IsKey name) :=
  decidable_of_iff (name ≠ [] ∧ name.all Char.isAlphanum ∧ name.length ≤ maxKeyLength)
    ⟨fun ⟨hne, letters, short⟩ => ⟨hne, List.all_eq_true.1 letters, short⟩,
      fun key => ⟨key.ne_nil, List.all_eq_true.2 key.letters, key.short⟩⟩

variable {name : Text}

theorem ne_of_mem (key : IsKey name) {c d : Char} (hc : c ∈ name) (other : d.isAlphanum = false) :
    c ≠ d :=
  ne_of_isAlphanum (key.letters c hc) other

theorem solid (key : IsKey name) : ∀ c ∈ name, isWhite c = false :=
  fun c hc => isWhite_eq_false_of_isAlphanum (key.letters c hc)

theorem content (key : IsKey name) (rest : Text) : Content (name ++ rest) := by
  intro c hc
  have inside : c ∈ name := by
    rw [List.head?_append_of_ne_nil _ key.ne_nil] at hc
    exact List.mem_of_mem_head? hc
  exact ⟨key.solid c inside, key.ne_of_mem inside (by decide), key.ne_of_mem inside (by decide)⟩

theorem no_mark (key : IsKey name) {c : Cursor} {column : Nat} {rest : Text}
    (at_key : c.At column (name ++ rest)) : c.atDocumentMark = false := by
  obtain ⟨x, more, rfl⟩ := List.exists_cons_of_ne_nil key.ne_nil
  have no_triple : ∀ d : Char, d.isAlphanum = false → atTriple d c.rest = false := by
    intro d other
    rw [at_key.rest, List.cons_append]
    exact atTriple_eq_false (key.ne_of_mem List.mem_cons_self other) _
  simp [Cursor.atDocumentMark, Yaml.atDocumentMark, no_triple '-' (by decide),
    no_triple '.' (by decide)]

end IsKey

namespace Stream

/-- Wherever this text comes after white space, in this column, the tokens are read. -/
def ReadsAt (f : Frame) (column : Nat) (rest : Text) (tokens : List Token) : Prop :=
  ∀ s : Stream, s.Arrives f column rest → s.Reads tokens

variable {f : Frame} {column n : Nat} {name rest : Text} {tokens : List Token} {x y : Char}

/-! ## Keys -/

/-- The stream right after a key whose mark is still to come. -/
def afterKey (f : Frame) (c : Cursor) (name : Text) : Stream where
  cursor := c.skip name.length
  tokens := .scalar .plain name :: f.tokens
  margin := f.margin
  margins := f.margins
  keyAllowed := false
  keyStart := some ⟨f.tokens.length, c.index, c.line, c.column, f.margin == c.column + 1⟩
  keyStarts := []

theorem token?_key {c : Cursor} {more : Text} (key : IsKey (x :: more)) (white : isWhite y)
    (at_key : c.At column (x :: more ++ ':' :: y :: rest)) :
    (f.stream c true).token? x (more ++ ':' :: y :: rest) = some (afterKey f c (x :: more)) := by
  have plain := isPlainText_of_isAlphanum key.ne_nil key.letters
  have no_mark := key.no_mark at_key
  have at_word : x = '-' ∨ x = '?' ∨ x = ':' → atWhite (more ++ ':' :: y :: rest) = false := by
    intro mark
    exfalso
    rcases mark with mark | mark | mark
    · exact key.ne_of_mem List.mem_cons_self (by decide) mark
    · exact key.ne_of_mem List.mem_cons_self (by decide) mark
    · exact key.ne_of_mem List.mem_cons_self (by decide) mark
  have dispatch : (f.stream c true).token? x (more ++ ':' :: y :: rest) =
      (f.stream c true).plainScalar? :=
    token?_plain rfl no_mark (key.solid x List.mem_cons_self) (plain.no_indicator x more rfl) at_word
  have reads : Plain.read? false f.margin c = some ⟨x :: more, .none, c.skip (x :: more).length⟩ :=
    Plain.read?_key key.ne_nil key.solid (fun colon => key.ne_of_mem colon (by decide) rfl)
      (fun comment => key.ne_of_mem (List.mem_of_mem_head? comment) (by decide) rfl) no_mark at_key white
  rw [dispatch, plainScalar?]
  have saved : (f.stream c true).saveKey? = some { f.stream c true with
      keyStart := some ⟨f.tokens.length, c.index, c.line, c.column, f.margin == c.column + 1⟩ } := by
    simp [saveKey?, dropKey?, Frame.stream, inFlow]
  rw [saved]
  simp only [Option.bind_eq_bind, Option.bind_some]
  show (Plain.read? false f.margin c).bind _ = _
  rw [reads]
  rfl

theorem value?_afterKey (f : Frame) (c : Cursor) (name : Text) : (afterKey f c name).value? =
    some (((f.mapped c.column).push [.key, .scalar .plain name, .value]).stream
      ((c.skip name.length).skip 1) false) := by
  have one : (f.tokens.length + 1) - f.tokens.length = 1 := by omega
  have two : (f.tokens.length + 1 + 1) - f.tokens.length = 2 := by omega
  by_cases opens : f.margin < c.column + 1
  · simp [value?, afterKey, insert, openBlock, inFlow, add, skip, Frame.stream, Frame.push,
      Frame.mapped, opens, one, two]
  · simp [value?, afterKey, insert, openBlock, inFlow, add, skip, Frame.stream, Frame.push,
      Frame.mapped, opens, one]

/-- The start of a key that is not too long is remembered up to its mark. -/
theorem dropStaleKeys?_afterKey (f : Frame) (c : Cursor) (short : name.length ≤ maxKeyLength) :
    (afterKey f c name).dropStaleKeys? = some (afterKey f c name) := by
  have not_stale : isStale (c.skip name.length)
      ⟨f.tokens.length, c.index, c.line, c.column, f.margin == c.column + 1⟩ = false := by
    simp [isStale, Cursor.skip, short]
  simp [dropStaleKeys?, afterKey, dropStale?, not_stale]

/-- The colon after a key makes it one. -/
theorem reads_afterKey {c : Cursor} (right : f.margin ≤ c.column + 1) (hne : name ≠ [])
    (short : name.length ≤ maxKeyLength) (white : isWhite x)
    (at_colon : (c.skip name.length).At (c.column + name.length) (':' :: x :: rest))
    (h : (((f.mapped c.column).push [.key, .scalar .plain name, .value]).stream
      ((c.skip name.length).skip 1) false).Reads tokens) : (afterKey f c name).Reads tokens := by
  have colon : Content (':' :: x :: rest) := content_cons.2 (by decide)
  have no_mark : (afterKey f c name).cursor.atDocumentMark = false :=
    at_colon.atDocumentMark (by simp [hne])
  have inside : (afterKey f c name).margin ≤ (afterKey f c name).cursor.column + 1 := by
    show f.margin ≤ (c.skip name.length).column + 1
    rw [at_colon.column]
    omega
  have value : ((afterKey f c name).closeBlocks ((afterKey f c name).cursor.column + 1)).token?
      ':' (x :: rest) = some (((f.mapped c.column).push [.key, .scalar .plain name, .value]).stream
        ((c.skip name.length).skip 1) false) := by
    rw [closeBlocks_of_le inside, token?_colon (s := afterKey f c name) rfl no_mark (x :: rest) white,
      value?_afterKey]
  refine reads_of_turn (skipWhite_content at_colon colon) (dropStaleKeys?_afterKey f c short)
    at_colon.rest value ?_ h
  show ((c.skip _).skip 1).rest.length < (c.skip _).rest.length
  rw [at_colon.skip_one.rest, at_colon.rest]
  simp

/-- A key and its mark are read, and then their value. -/
theorem readsAt_key (key : IsKey name) (white : isWhite x)
    (h : ∀ c : Cursor, c.At (column + name.length + 1) (x :: rest) →
      (((f.block column).push [.key, .scalar .plain name, .value]).stream c false).Reads tokens) :
    ReadsAt f column (name ++ ':' :: x :: rest) tokens := by
  rintro s ⟨c, arrives, at_key⟩
  obtain rfl := at_key.column
  have at_colon : (c.skip name.length).At (c.column + name.length) (':' :: x :: rest) := at_key.skip
  obtain ⟨y, more, rfl⟩ := List.exists_cons_of_ne_nil key.ne_nil
  have scalar : ((f.stream c true).closeBlocks (c.column + 1)).token? y (more ++ ':' :: x :: rest) =
      some (afterKey (f.closeTo (c.column + 1)) c (y :: more)) := by
    rw [Frame.closeBlocks_stream]
    exact token?_key key white at_key
  refine reads_of_turn arrives Frame.dropStaleKeys?_stream at_key.rest scalar ?_
    (reads_afterKey Frame.margin_closeTo_le key.ne_nil key.short white at_colon (h _ at_colon.skip_one))
  show (c.skip _).rest.length < c.rest.length
  rw [at_colon.rest, at_key.rest, List.length_append]
  simp

end Stream

/-! ## Fields -/

theorem printField_eq (indent : Nat) (name : Text) (datum : Datum) : printField indent name datum =
    name ++ ':' :: ' ' :: closed (printDatum (indent + 2) datum) := by
  have line : printField indent name datum =
      closed ((name ++ ": ".toList) ++ printDatum (indent + 2) datum) := rfl
  rw [line, closed_append (printDatum_begins _ datum).1]
  simp

theorem IsKey.content_printField {name : Text} (key : IsKey name) (indent : Nat) (datum : Datum)
    (rest : Text) : Content (printField indent name datum ++ rest) := by
  rw [printField_eq, List.append_assoc]
  exact key.content _

/-- The tokens of a key with its datum. -/
def fieldTokens (name : Text) (datum : Datum) : List Token :=
  [.key, .scalar .plain name, .value, .scalar datum.style datum.text]

def fieldsTokens (record : Record) : List Token :=
  record.flatMap fun (name, datum) => fieldTokens name datum

theorem fieldsTokens_cons (name : Text) (datum : Datum) (record : Record) :
    fieldsTokens ((name, datum) :: record) = fieldTokens name datum ++ fieldsTokens record :=
  List.flatMap_cons

namespace Stream

variable {f : Frame} {column n : Nat} {name rest : Text} {tokens : List Token}

theorem readsAt_field (key : IsKey name) (datum : Datum) (right : n ≤ column) (content : Content rest)
    (h : ReadsAt ((f.block column).push (fieldTokens name datum)) n rest tokens) :
    ReadsAt f column (printField column name datum ++ (spaces n ++ rest)) tokens := by
  rw [printField_eq, List.append_assoc, List.cons_append, List.cons_append]
  refine readsAt_key key (by decide) fun c at_blank => ?_
  have begins : Content (closed (printDatum (column + 2) datum) ++ (spaces n ++ rest)) := by
    obtain ⟨hne, shown⟩ := printDatum_begins (column + 2) datum
    exact (shown.closed hne).append (closed_ne_nil _) _
  let g := (f.block column).push [.key, .scalar .plain name, .value]
  have margin : g.margin = column + 1 := Frame.margin_block
  obtain ⟨c', passed, at_datum⟩ := skipWhite_spaces (n := 1) g false at_blank begins
  have at_shown : c'.At (column + name.length + 1 + 1)
      (closed (printDatum (g.margin + 1) datum) ++ (spaces n ++ rest)) := by
    rw [margin]
    exact at_datum
  obtain ⟨x, more, u, head, token, shorter, arrives⟩ :=
    scalarTurn_datum datum (by omega) (by omega) (by omega) content at_shown
  rw [Frame.push_push] at arrives
  refine reads_of_turn passed Frame.dropStaleKeys?_stream head ?_ shorter (h u arrives)
  have inner : g.margin ≤ c'.column + 1 := by
    rw [margin, at_datum.column]
    omega
  rwa [closeBlocks_of_le inner]

/-- Fields below one another. -/
theorem readsAt_fields (datum : Datum) (more : Record) (key : IsKey name)
    (keys : ∀ field ∈ more, IsKey field.1) (content : Content rest)
    (h : ReadsAt ((f.block 2).push (fieldsTokens ((name, datum) :: more))) 0 rest tokens) :
    ReadsAt f 2 (printField 2 name datum ++
      (more.flatMap (fun (name, datum) => spaces 2 ++ printField 2 name datum) ++ rest)) tokens := by
  induction more generalizing f name datum with
  | nil => exact readsAt_field (n := 0) key datum (Nat.zero_le 2) content h
  | cons field more ih =>
    obtain ⟨name', datum'⟩ := field
    have key' : IsKey name' := keys (name', datum') List.mem_cons_self
    rw [List.flatMap_cons, List.append_assoc, List.append_assoc]
    refine readsAt_field (n := 2) key datum (Nat.le_refl 2) (key'.content_printField 2 datum' _)
      (ih datum' key' ?_ ?_)
    · exact fun field hfield => keys field (List.mem_cons_of_mem _ hfield)
    · rwa [Frame.block_of_margin (f := (f.block 2).push _) Frame.margin_block, Frame.push_push,
        ← fieldsTokens_cons]

end Stream

/-! ## Records -/

def recordTokens (record : Record) : List Token :=
  .blockEntry :: .blockMappingStart :: fieldsTokens record ++ [.blockEnd]

/-- A record is printed as fields of its own. -/
structure IsRecord (record : Record) : Prop where
  ne_nil : record ≠ []
  keys : ∀ field ∈ record, IsKey field.1

theorem content_printRecords (records : List Record) {rest : Text} (content : Content rest) :
    Content (records.flatMap printRecord ++ rest) := by
  cases records with
  | nil => exact content
  | cons record records =>
    have dash : ∃ more, printRecord record = '-' :: more := by
      cases record with
      | nil => exact ⟨_, rfl⟩
      | cons field record => exact ⟨_, rfl⟩
    obtain ⟨more, dash⟩ := dash
    rw [List.flatMap_cons, dash]
    exact content_cons.2 (by decide)

namespace Stream

variable {f : Frame} {ts tokens : List Token} {name rest : Text}

/-- The dash of a list entry in the outermost mapping. -/
theorem readsAt_dash (start : f.closeTo 1 = .outer ts) (content : Content rest)
    (h : ReadsAt (.outer (ts ++ [.blockEntry])) 2 rest tokens) :
    ReadsAt f 0 ('-' :: ' ' :: rest) tokens := by
  rintro s ⟨c, arrives, at_dash⟩
  have no_mark : c.atDocumentMark = false := by
    have no_triple : ∀ d, atTriple d ('-' :: ' ' :: rest) = false := by
      intro d
      cases rest with
      | nil => rfl
      | cons x rest =>
        by_cases blank : ' ' = d
        · subst blank
          simp [atTriple]
        · simp [atTriple, blank]
    simp [Cursor.atDocumentMark, at_dash.rest, Yaml.atDocumentMark, no_triple]
  obtain ⟨c', passed, at_rest⟩ :=
    skipWhite_spaces (n := 1) (.outer (ts ++ [.blockEntry])) true at_dash.skip_one content
  have entry : ((f.stream c true).closeBlocks (c.column + 1)).token? '-' (' ' :: rest) =
      some ((Frame.outer (ts ++ [.blockEntry])).stream (c.skip 1) true) := by
    rw [Frame.closeBlocks_stream, at_dash.column, start, token?_dash no_mark rfl]
    simp [Frame.stream, Frame.outer, blockEntry?, inFlow, openBlock, dropKey?, skip, add, at_dash.column]
  refine reads_of_turn arrives Frame.dropStaleKeys?_stream at_dash.rest entry ?_
    (h _ ⟨c', passed, at_rest⟩)
  show (c.skip 1).rest.length < c.rest.length
  rw [at_dash.skip_one.rest, at_dash.rest]
  simp

theorem readsAt_record {record : Record} (proper : IsRecord record) (start : f.closeTo 1 = .outer ts)
    (content : Content rest)
    (h : ∀ f' : Frame, f'.closeTo 1 = .outer (ts ++ recordTokens record) → ReadsAt f' 0 rest tokens) :
    ReadsAt f 0 (printRecord record ++ rest) tokens := by
  obtain ⟨⟨name, datum⟩, more, rfl⟩ := List.exists_cons_of_ne_nil proper.ne_nil
  have key : IsKey name := proper.keys (name, datum) List.mem_cons_self
  have shape : printRecord ((name, datum) :: more) ++ rest = '-' :: ' ' :: (printField 2 name datum ++
      (more.flatMap (fun (name, datum) => spaces 2 ++ printField 2 name datum) ++ rest)) := by
    simp [printRecord]
  rw [shape]
  have others : ∀ field ∈ more, IsKey field.1 :=
    fun field hfield => proper.keys field (List.mem_cons_of_mem _ hfield)
  refine readsAt_dash start (key.content_printField 2 datum _)
    (readsAt_fields datum more key others content (h _ ?_))
  simp [Frame.block, Frame.mapped, Frame.closeTo, Frame.outer, Frame.push, recordTokens]

theorem readsAt_records {records : List Record} (proper : ∀ record ∈ records, IsRecord record)
    (start : f.closeTo 1 = .outer ts) (content : Content rest)
    (h : ∀ f' : Frame, f'.closeTo 1 = .outer (ts ++ records.flatMap recordTokens) →
      ReadsAt f' 0 rest tokens) :
    ReadsAt f 0 (records.flatMap printRecord ++ rest) tokens := by
  induction records generalizing f ts with
  | nil => exact h f (by simpa using start)
  | cons record records ih =>
    rw [List.flatMap_cons, List.append_assoc]
    refine readsAt_record (proper record List.mem_cons_self) start (content_printRecords records content)
      fun f' next => ?_
    refine ih (fun r hr => proper r (List.mem_cons_of_mem record hr)) next fun f'' last => h f'' ?_
    rw [last, List.flatMap_cons, List.append_assoc]

end Stream

/-! ## Outlines -/

/-- The tokens of a key of the outermost mapping with what it stands for. -/
def entryTokens : Text × Field → List Token
  | (name, .datum datum) => fieldTokens name datum
  | (name, .records records) => [.key, .scalar .plain name, .value] ++ records.flatMap recordTokens

def outlineTokens (outline : Outline) : List Token :=
  .blockMappingStart :: outline.flatMap entryTokens ++ [.blockEnd]

/-- An entry that is printed as a field or as a key above its list. -/
def IsEntry : Text × Field → Prop
  | (name, .datum _) => IsKey name
  | (name, .records records) => IsKey name ∧ records ≠ [] ∧ ∀ record ∈ records, IsRecord record

theorem print_cons (entry : Text × Field) (outline : Outline) :
    print (entry :: outline) = print [entry] ++ print outline := by
  simp [print]

theorem print_datum (name : Text) (datum : Datum) :
    print [(name, .datum datum)] = printField 0 name datum := by
  simp [print]

theorem print_records (name : Text) {records : List Record} (hne : records ≠ []) :
    print [(name, .records records)] = name ++ ':' :: '\n' :: records.flatMap printRecord := by
  obtain ⟨record, records, rfl⟩ := List.exists_cons_of_ne_nil hne
  simp [print]

theorem IsEntry.content {entry : Text × Field} (proper : IsEntry entry) (rest : Text) :
    Content (print [entry] ++ rest) := by
  obtain ⟨name, datum | records⟩ := entry
  · rw [print_datum]
    exact IsKey.content_printField proper 0 datum rest
  · rw [print_records name proper.2.1, List.append_assoc]
    exact IsKey.content proper.1 _

theorem content_print {outline : Outline} (proper : ∀ entry ∈ outline, IsEntry entry) :
    Content (print outline) := by
  cases outline with
  | nil => exact fun c hc => absurd hc (by simp [print])
  | cons entry outline =>
    rw [print_cons]
    exact (proper entry List.mem_cons_self).content _

namespace Stream

variable {f : Frame} {ts tokens : List Token} {rest : Text}

theorem readsAt_entry {entry : Text × Field} (proper : IsEntry entry) (start : f.block 0 = .outer ts)
    (content : Content rest)
    (h : ∀ f' : Frame, f'.closeTo 1 = .outer (ts ++ entryTokens entry) → ReadsAt f' 0 rest tokens) :
    ReadsAt f 0 (print [entry] ++ rest) tokens := by
  obtain ⟨name, datum | records⟩ := entry
  · rw [print_datum]
    refine readsAt_field (n := 0) proper datum (Nat.le_refl 0) content (h _ ?_)
    rw [start, Frame.push_outer]
    rfl
  · obtain ⟨key, hne, proper⟩ := proper
    rw [print_records name hne, List.append_assoc]
    refine readsAt_key key (by decide) fun c at_feed => ?_
    rw [start, Frame.push_outer]
    have begins := content_printRecords records content
    obtain ⟨c', passed, at_first⟩ := skipWhite_feed (n := 0)
      (.outer (ts ++ [.key, .scalar .plain name, .value])) false at_feed begins
    refine readsAt_records proper rfl content (fun f' next => h f' ?_) _ ⟨c', passed, at_first⟩
    rw [next, List.append_assoc]
    rfl

/-- At the end of the text the outermost mapping is closed. -/
theorem readsAt_end (start : f.closeTo 1 = .outer ts) : ReadsAt f 0 [] (ts ++ [.blockEnd]) := by
  rintro s ⟨c, arrives, at_end⟩ fuel enough
  obtain ⟨fuel, rfl⟩ : ∃ less, fuel = less + 1 := ⟨fuel - 1, by omega⟩
  have inside : (f.stream c true).closeBlocks ((f.stream c true).cursor.column + 1) =
      (Frame.outer ts).stream c true := by
    rw [Frame.closeBlocks_stream, ← start]
    show (f.closeTo (c.column + 1)).stream c true = _
    rw [at_end.column]
  have at_end : ((Frame.outer ts).stream c true).cursor.rest = [] := at_end.rest
  rw [readFrom, arrives, Frame.dropStaleKeys?_stream]
  simp only [Option.bind_eq_bind, Option.bind_some, inside, at_end, Frame.closeBlocks_stream]
  simp [Frame.closeTo, Frame.outer, Frame.stream, dropKey?]

theorem readsAt_print {outline : Outline} (proper : ∀ entry ∈ outline, IsEntry entry)
    (start : f.closeTo 1 = .outer ts) :
    ReadsAt f 0 (print outline) (ts ++ outline.flatMap entryTokens ++ [.blockEnd]) := by
  induction outline generalizing f ts with
  | nil =>
    rw [List.flatMap_nil, List.append_nil]
    exact readsAt_end start
  | cons entry outline ih =>
    have others := fun e he => proper e (List.mem_cons_of_mem entry he)
    have inside : f.block 0 = .outer ts := by
      rw [Frame.block, start]
      rfl
    rw [print_cons, List.flatMap_cons, ← List.append_assoc]
    exact readsAt_entry (proper entry List.mem_cons_self) inside (content_print others)
      fun f' next => ih others next

end Stream

/-! ## Characters -/

section Characters

variable {c : Char}

theorem IsKey.isPrintable {name : Text} (key : IsKey name) (h : c ∈ name) : isPrintable c :=
  isPrintable_of_isAlphanum (key.letters c h)

theorem isPrintable_printField {indent : Nat} {name : Text} (key : IsKey name) {datum : Datum}
    (h : c ∈ printField indent name datum) : isPrintable c := by
  simp only [printField_eq, List.mem_append, List.mem_cons] at h
  rcases h with h | rfl | rfl | h
  · exact key.isPrintable h
  · decide
  · decide
  · rcases mem_closed h with h | rfl
    · exact isPrintable_printDatum h
    · decide

theorem isPrintable_printRecord {record : Record} (proper : IsRecord record)
    (h : c ∈ printRecord record) : isPrintable c := by
  have lead : "- ".toList.all isPrintable := by decide
  obtain ⟨⟨name, datum⟩, more, rfl⟩ := List.exists_cons_of_ne_nil proper.ne_nil
  simp only [printRecord, List.mem_append, List.mem_flatMap] at h
  rcases h with (h | h) | ⟨⟨name', datum'⟩, inside, h | h⟩
  · exact List.all_eq_true.1 lead c h
  · exact isPrintable_printField (proper.keys _ List.mem_cons_self) h
  · rw [mem_spaces h]
    decide
  · exact isPrintable_printField (proper.keys _ (List.mem_cons_of_mem _ inside)) h

theorem isPrintable_print {outline : Outline} (proper : ∀ entry ∈ outline, IsEntry entry)
    (h : c ∈ print outline) : isPrintable c := by
  induction outline with
  | nil => cases h
  | cons entry outline ih =>
    rw [print_cons] at h
    rcases List.mem_append.1 h with h | h
    · have first := proper entry List.mem_cons_self
      obtain ⟨name, datum | records⟩ := entry
      · rw [print_datum] at h
        exact isPrintable_printField first h
      · obtain ⟨key, hne, proper⟩ := first
        simp only [print_records name hne, List.mem_append, List.mem_cons, List.mem_flatMap] at h
        rcases h with h | rfl | rfl | ⟨record, inside, h⟩
        · exact key.isPrintable h
        · decide
        · decide
        · exact isPrintable_printRecord (proper record inside) h
    · exact ih (fun e he => proper e (List.mem_cons_of_mem entry he)) h

end Characters

/-- The tokens of a printed outline. -/
theorem tokens?_print {outline : Outline} (hne : outline ≠ [])
    (proper : ∀ entry ∈ outline, IsEntry entry) : tokens? (print outline) = some (outlineTokens outline) := by
  have no_mark : (print outline).head? ≠ some byteOrderMark :=
    fun mark => (content_print proper byteOrderMark mark).2.2 rfl
  obtain ⟨entry, outline, rfl⟩ := List.exists_cons_of_ne_nil hne
  have first := proper entry List.mem_cons_self
  have others := fun e he => proper e (List.mem_cons_of_mem entry he)
  have allowed : (print (entry :: outline)).all isAllowed := by
    exact List.all_eq_true.2 fun c hc => isAllowed_of_isPrintable (isPrintable_print proper hc)
  have reads : Stream.ReadsAt ⟨[], 0, []⟩ 0 (print (entry :: outline))
      (outlineTokens (entry :: outline)) := by
    rw [print_cons]
    have start : Frame.block ⟨[], 0, []⟩ 0 = .outer [.blockMappingStart] := rfl
    refine Stream.readsAt_entry first start (content_print others) fun f' next => ?_
    have rest := Stream.readsAt_print others next
    simpa [outlineTokens] using rest
  have start : (Stream.start (print (entry :: outline))).Arrives ⟨[], 0, []⟩ 0
      (print (entry :: outline)) :=
    ⟨.start _, Stream.skipWhite_content ⟨rfl, rfl⟩ (content_print proper), rfl, rfl⟩
  rw [tokens?, if_pos allowed]
  simp only [beq_iff_eq, no_mark, if_false]
  exact reads _ start _ (Nat.lt_succ_self _)

end ComponentForge.Yaml

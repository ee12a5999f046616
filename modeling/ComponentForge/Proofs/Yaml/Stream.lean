import ComponentForge.Proofs.Yaml.Scalar.Style
import ComponentForge.Yaml.Stream

/-!
# Turns of the reader

Each turn of the reader passes the white space, closes the blocks that end there and reads one
token. Outside of flow collections all that a turn depends on is a `Frame` and the text that is left.
A printed scalar takes one turn, whatever its style.
-/

namespace ComponentForge.Yaml

/-- What is read of a document outside of flow collections: the tokens, the latest first, and the
margins of the blocks that are open. -/
structure Frame where
  tokens : List Token
  margin : Nat
  margins : List Nat

namespace Frame

/-- The frame once the tokens are read. -/
def push (f : Frame) (tokens : List Token) : Frame :=
  { f with tokens := tokens.reverse ++ f.tokens }

/-- The frame once a mapping is open at the column. -/
def mapped (f : Frame) (column : Nat) : Frame :=
  if f.margin < column + 1 then
    ⟨.blockMappingStart :: f.tokens, column + 1, f.margin :: f.margins⟩
  else f

/-- The frame once the blocks of greater margins are closed. -/
def closeTo (f : Frame) (n : Nat) : Frame where
  tokens := List.replicate ((f.margin :: f.margins).takeWhile (n < ·)).length .blockEnd ++ f.tokens
  margin := ((f.margin :: f.margins).dropWhile (n < ·)).headD 0
  margins := ((f.margin :: f.margins).dropWhile (n < ·)).drop 1

/-- The frame in which a key at the column stands. -/
def block (f : Frame) (column : Nat) : Frame :=
  (f.closeTo (column + 1)).mapped column

/-- The outermost mapping once the tokens are read, its opening included. -/
def outer (tokens : List Token) : Frame :=
  ⟨tokens.reverse, 1, [0]⟩

/-- The stream between two tokens. -/
def stream (f : Frame) (c : Cursor) (keyAllowed : Bool) : Stream :=
  ⟨c, f.tokens, f.margin, f.margins, keyAllowed, none, []⟩

variable {f : Frame} {c : Cursor} {allowed : Bool} {column n : Nat} {rest : Text}

theorem dropStaleKeys?_stream : (f.stream c allowed).dropStaleKeys? = some (f.stream c allowed) :=
  rfl

theorem closeBlocks_stream : (f.stream c allowed).closeBlocks n = (f.closeTo n).stream c allowed :=
  rfl

theorem closeTo_of_le (h : f.margin ≤ n) : f.closeTo n = f := by
  simp [closeTo, Nat.not_lt.2 h]

theorem margin_closeTo_le : (f.closeTo n).margin ≤ n := by
  show ((f.margin :: f.margins).dropWhile (n < ·)).headD 0 ≤ n
  generalize f.margin :: f.margins = margins
  induction margins with
  | nil => exact Nat.zero_le n
  | cons margin margins ih =>
    by_cases above : n < margin
    · simpa [above] using ih
    · simpa [above] using Nat.not_lt.1 above

theorem margin_block : (f.block column).margin = column + 1 := by
  have right : (f.closeTo (column + 1)).margin ≤ column + 1 := margin_closeTo_le
  rw [block, mapped]
  split
  · rfl
  · omega

theorem block_of_margin (h : f.margin = column + 1) : f.block column = f := by
  rw [block, closeTo_of_le (Nat.le_of_eq h), mapped, if_neg (by omega)]

theorem push_push (front back : List Token) : (f.push front).push back = f.push (front ++ back) := by
  simp [push]

theorem push_outer (front back : List Token) : (outer front).push back = outer (front ++ back) := by
  simp [push, outer]

theorem saveKey?_stream : (f.stream c false).saveKey? = some (f.stream c false) :=
  rfl

end Frame

namespace Stream

variable {s : Stream} {f : Frame} {c : Cursor} {allowed : Bool} {column n : Nat} {rest : Text}

theorem closeBlocks_of_le (h : s.margin ≤ n) : s.closeBlocks n = s := by
  rw [closeBlocks]
  split
  · rfl
  · simp [Nat.not_lt.2 h]

theorem not_mark (h : c.At column rest) (other : ∀ x ∈ rest.head?, x ≠ byteOrderMark) :
    (c.index = 0 && c.headIs byteOrderMark) = false := by
  rw [h.headIs]
  cases rest with
  | nil => simp
  | cons x rest => simp [other x rfl]

theorem not_comment (h : c.At column rest) (other : ∀ x ∈ rest.head?, x ≠ '#') :
    c.headIs '#' = false := by
  rw [h.headIs]
  cases rest with
  | nil => rfl
  | cons x rest => simpa using other x rfl

/-- At content there is no white space to pass. -/
theorem skipWhite_content (h : s.cursor.At column rest) (content : Content rest) : s.skipWhite = s := by
  have no_mark := not_mark h fun x hx => (content x hx).2.2
  have no_blank : (s.cursor.skipWhile fun x => x == ' ' || (x == '\t' && (s.inFlow || !s.keyAllowed))) =
      s.cursor := by
    refine h.skipWhile_none fun x hx => ?_
    have blank := isSpaceOrTab_eq_false_of_isWhite_eq_false (content x hx).1
    rw [isSpaceOrTab, Bool.or_eq_false_iff] at blank
    simp [blank.1, blank.2]
  rw [skipWhite, skipWhiteFrom]
  simp [no_mark, no_blank, not_comment h fun x hx => (content x hx).2.1,
    h.takeBreak?_none content.unspaced.no_break]

theorem skipWhiteFrom_spaces (f : Frame) (allowed : Bool) (fuel : Nat)
    (h : c.At column (spaces n ++ rest)) (content : Content rest) :
    ∃ c', skipWhiteFrom (fuel + 1) (f.stream c allowed) = f.stream c' allowed ∧
      c'.At (column + n) rest := by
  have no_mark : (c.index = 0 && c.headIs byteOrderMark) = false := by
    refine not_mark h fun x hx => ?_
    cases n with
    | zero => exact (content x hx).2.2
    | succ n =>
      obtain rfl : ' ' = x := by simpa [spaces_succ] using hx
      decide
  have at_rest : (c.skipWhile fun x => x == ' ' || (x == '\t' &&
      ((f.stream c allowed).inFlow || !(f.stream c allowed).keyAllowed))).At (column + n) rest := by
    have passed := h.skipWhile (p := fun x => x == ' ' || (x == '\t' &&
      ((f.stream c allowed).inFlow || !(f.stream c allowed).keyAllowed)))
      (fun x hx => by simp [mem_spaces hx]) fun x hx => by
        have blank := isSpaceOrTab_eq_false_of_isWhite_eq_false (content x hx).1
        rw [isSpaceOrTab, Bool.or_eq_false_iff] at blank
        simp [blank.1, blank.2]
    rwa [length_spaces] at passed
  refine ⟨_, ?_, at_rest⟩
  rw [skipWhiteFrom]
  have here : (f.stream c allowed).cursor = c := rfl
  simp only [here, no_mark, Bool.false_eq_true, if_false,
    not_comment at_rest fun x hx => (content x hx).2.1, at_rest.takeBreak?_none content.unspaced.no_break]
  rfl

/-- The spaces before content are passed. -/
theorem skipWhite_spaces (f : Frame) (allowed : Bool) (h : c.At column (spaces n ++ rest))
    (content : Content rest) :
    ∃ c', (f.stream c allowed).skipWhite = f.stream c' allowed ∧ c'.At (column + n) rest :=
  skipWhiteFrom_spaces f allowed _ h content

/-- A new line is passed with its indentation, and a key may start there. -/
theorem skipWhite_feed (f : Frame) (allowed : Bool) (h : c.At column ('\n' :: (spaces n ++ rest)))
    (content : Content rest) :
    ∃ c', (f.stream c allowed).skipWhite = f.stream c' true ∧ c'.At n rest := by
  obtain ⟨c', taken, at_next⟩ := h.takeBreak? isKept_lineFeed
  have no_mark := not_mark h fun x hx => by
    obtain rfl : '\n' = x := by simpa using hx
    decide
  have no_blank : (c.skipWhile fun x => x == ' ' || (x == '\t' &&
      ((f.stream c allowed).inFlow || !(f.stream c allowed).keyAllowed))) = c :=
    h.skipWhile_none (by simp)
  have here : (f.stream c allowed).cursor = c := rfl
  have more : ∃ fuel, c.rest.length = fuel + 1 := ⟨(spaces n ++ rest).length, by rw [h.rest]; rfl⟩
  obtain ⟨fuel, more⟩ := more
  obtain ⟨c'', passed, at_rest⟩ := skipWhiteFrom_spaces f true fuel at_next content
  rw [Nat.zero_add] at at_rest
  refine ⟨c'', ?_, at_rest⟩
  rw [skipWhite, here, more, skipWhiteFrom]
  simp only [here, no_mark, Bool.false_eq_true, if_false, no_blank, not_comment h (by simp), taken]
  rw [← passed]
  simp [Frame.stream, inFlow]

theorem length_takeBreak? {b : Char} {c' : Cursor} (h : c.takeBreak? = some (b, c')) :
    c'.rest.length ≤ c.rest.length := by
  rw [Cursor.takeBreak?] at h
  split at h
  · rename_i more whole
    obtain ⟨-, rfl⟩ := Prod.mk.inj (Option.some.inj h)
    simp [whole]
    omega
  · rename_i first more _ whole
    split at h
    · obtain ⟨-, rfl⟩ := Prod.mk.inj (Option.some.inj h)
      simp [whole]
    · cases h
  · cases h

theorem length_skipWhiteFrom (fuel : Nat) (s : Stream) :
    (skipWhiteFrom fuel s).cursor.rest.length ≤ s.cursor.rest.length := by
  have skip : ∀ (c : Cursor) (n : Nat), (c.skip n).rest.length ≤ c.rest.length := by
    intro c n
    simp [Cursor.skip]
  have skip_if : ∀ (b : Bool) (c c' : Cursor), c'.rest.length ≤ c.rest.length →
      (if b then c' else c).rest.length ≤ c.rest.length := by
    intro b c c' shorter
    split
    · exact shorter
    · exact Nat.le_refl _
  induction fuel generalizing s with
  | zero => exact Nat.le_refl _
  | succ fuel ih =>
    rw [skipWhiteFrom]
    have mark := skip_if (s.cursor.index = 0 && s.cursor.headIs byteOrderMark) s.cursor _ (skip s.cursor 1)
    have comment : ∀ c : Cursor,
        (if c.headIs '#' then c.skipWhile (!isBreak ·) else c).rest.length ≤ c.rest.length :=
      fun c => skip_if _ c _ (skip c _)
    split
    · rename_i taken
      exact Nat.le_trans (ih _) (Nat.le_trans (length_takeBreak? taken)
        (Nat.le_trans (comment _) (Nat.le_trans (skip _ _) mark)))
    · exact Nat.le_trans (comment _) (Nat.le_trans (skip _ _) mark)

/-- After white space the stream goes on with this text in this column, where a key may start. -/
def Arrives (s : Stream) (f : Frame) (column : Nat) (rest : Text) : Prop :=
  ∃ c, s.skipWhite = f.stream c true ∧ c.At column rest

/-! ## Turns of the reader -/

/-- Whatever fuel there is, if it is enough for the rest, the tokens are read. -/
def Reads (s : Stream) (tokens : List Token) : Prop :=
  ∀ fuel, s.cursor.rest.length < fuel → readFrom fuel s = some tokens

variable {tokens : List Token} {x : Char}

/-- A turn of the reader that makes progress. -/
theorem reads_of_turn {t u : Stream} (white : s.skipWhite = t) (fresh : t.dropStaleKeys? = some t)
    (head : t.cursor.rest = x :: rest)
    (token : (t.closeBlocks (t.cursor.column + 1)).token? x rest = some u)
    (shorter : u.cursor.rest.length < t.cursor.rest.length) (h : u.Reads tokens) : s.Reads tokens := by
  intro fuel enough
  obtain ⟨fuel, rfl⟩ : ∃ less, fuel = less + 1 := ⟨fuel - 1, by omega⟩
  have passed : t.cursor.rest.length ≤ s.cursor.rest.length := white ▸ length_skipWhiteFrom _ s
  have same_cursor : (t.closeBlocks (t.cursor.column + 1)).cursor = t.cursor := by
    rw [closeBlocks]
    split <;> rfl
  rw [readFrom, white, fresh]
  simp only [Option.bind_eq_bind, Option.bind_some, same_cursor, head, token]
  exact h fuel (by omega)

/-! ## Tokens by their first character -/

theorem not_triple (no_mark : s.cursor.atDocumentMark = false) :
    (s.cursor.column = 0 && atTriple '-' s.cursor.rest) = false ∧
      (s.cursor.column = 0 && atTriple '.' s.cursor.rest) = false := by
  simp only [Cursor.atDocumentMark, Yaml.atDocumentMark, Bool.and_eq_false_iff, beq_eq_false_iff_ne,
    Bool.or_eq_false_iff, ne_eq] at no_mark
  simp only [Bool.and_eq_false_iff, decide_eq_false_iff_not]
  rcases no_mark with right | ⟨dashes, dots⟩
  · exact ⟨Or.inl right, Or.inl right⟩
  · exact ⟨Or.inr dashes, Or.inr dots⟩

theorem token?_plain (block : s.keyStarts = []) (no_mark : s.cursor.atDocumentMark = false)
    (word : isWhite x = false) (no_indicator : isIndicator x = false)
    (at_word : x = '-' ∨ x = '?' ∨ x = ':' → atWhite rest = false) :
    s.token? x rest = s.plainScalar? := by
  obtain ⟨dashes, dots⟩ := not_triple no_mark
  have other : ∀ d, isIndicator d = true → (x == d) = false := by
    intro d indicator
    refine beq_eq_false_iff_ne.2 ?_
    rintro rfl
    rw [no_indicator] at indicator
    cases indicator
  have marked : ∀ d, d = '-' ∨ d = '?' ∨ d = ':' → (x == d && atWhite rest) = false := by
    intro d mark
    by_cases same : x = d
    · rw [at_word (same ▸ mark), Bool.and_false]
    · simp [same]
  have outside : s.inFlow = false := by simp [inFlow, block]
  have starts : startsPlain false x rest = true := by
    by_cases mark : x = '-' ∨ x = '?' ∨ x = ':'
    · have goes_on := at_word mark
      cases rest with
      | nil => cases goes_on
      | cons y rest =>
        have not_blank := isSpaceOrTab_eq_false_of_isWhite_eq_false goes_on
        rcases mark with rfl | rfl | rfl <;> simp [startsPlain, not_blank, goes_on]
    · obtain ⟨not_dash, not_question, not_colon⟩ : x ≠ '-' ∧ x ≠ '?' ∧ x ≠ ':' := by
        simpa [not_or] using mark
      simp [startsPlain, word, no_indicator, not_dash, not_question, not_colon]
  rw [token?]
  simp only [dashes, dots, other '%' (by decide), other '[' (by decide), other '\x7b' (by decide),
    other ']' (by decide), other '\x7d' (by decide), other ',' (by decide), other '*' (by decide),
    other '&' (by decide), other '!' (by decide), other '|' (by decide), other '>' (by decide),
    other '\'' (by decide), other '"' (by decide), marked '-' (by simp), marked '?' (by simp),
    marked ':' (by simp), outside, Bool.false_or, Bool.and_false, Bool.false_and, starts,
    Bool.false_eq_true, if_false, if_true]

section Marks

variable (block : s.keyStarts = []) (no_mark : s.cursor.atDocumentMark = false) (rest : Text)

include block no_mark

theorem token?_singleQuote : s.token? '\'' rest = s.quotedScalar? true := by
  obtain ⟨dashes, dots⟩ := not_triple no_mark
  simp [token?, dashes, dots, inFlow, block]

theorem token?_doubleQuote : s.token? '"' rest = s.quotedScalar? false := by
  obtain ⟨dashes, dots⟩ := not_triple no_mark
  simp [token?, dashes, dots, inFlow, block]

theorem token?_bar : s.token? '|' rest = s.blockScalar? false := by
  obtain ⟨dashes, dots⟩ := not_triple no_mark
  simp [token?, dashes, dots, inFlow, block]

theorem token?_colon (white : atWhite rest) : s.token? ':' rest = s.value? := by
  obtain ⟨dashes, dots⟩ := not_triple no_mark
  simp [token?, dashes, dots, inFlow, block, white]

end Marks

theorem token?_dash (no_mark : s.cursor.atDocumentMark = false) (white : atWhite rest) :
    s.token? '-' rest = s.blockEntry? := by
  obtain ⟨dashes, dots⟩ := not_triple no_mark
  simp [token?, dashes, dots, white]

/-! ## Scalars -/

/-- The scalar at the cursor is read in one turn, which leads to the start of the next line. -/
def ScalarTurn (f : Frame) (c : Cursor) (style : Style) (text : Text) (n : Nat) (rest : Text) : Prop :=
  ∃ x more u, c.rest = x :: more ∧ (f.stream c false).token? x more = some u ∧
    u.cursor.rest.length < c.rest.length ∧ u.Arrives (f.push [.scalar style text]) n rest

variable {text : Text}

theorem scalarTurn_plain (h : IsPlainText text) (right : f.margin ≤ column) (inner : column ≠ 0)
    (below : n < f.margin) (content : Content rest)
    (at_text : c.At column (text ++ '\n' :: (spaces n ++ rest))) :
    ScalarTurn f c .plain text n rest := by
  obtain ⟨x, more, rfl⟩ := List.exists_cons_of_ne_nil h.words.ne_nil
  have word : isWhite x = false := unspaced_cons.1 (h.words.unspaced [])
  have at_word : x = '-' ∨ x = '?' ∨ x = ':' → atWhite (more ++ '\n' :: (spaces n ++ rest)) = false := by
    intro mark
    have goes_on := h.no_mark x more rfl mark
    cases more with
    | nil => cases goes_on
    | cons y more => exact goes_on
  obtain ⟨part, reads, text_eq, has_break, at_end⟩ :=
    Plain.read?_words h.words content.unspaced below at_text right
  have dispatch := token?_plain (s := f.stream c false) rfl (at_text.atDocumentMark inner) word
    (h.no_indicator x more rfl) at_word
  have scalar : (f.stream c false).plainScalar? =
      some ((f.push [.scalar .plain (x :: more)]).stream part.cursor true) := by
    have read_here : Plain.read? (f.stream c false).inFlow (f.stream c false).margin
      (f.stream c false).cursor = some part := reads
    rw [plainScalar?, Frame.saveKey?_stream]
    simp only [Option.bind_eq_bind, Option.bind_some, read_here, text_eq, has_break]
    rfl
  refine ⟨x, more ++ '\n' :: (spaces n ++ rest), _, at_text.rest, dispatch.trans scalar, ?_,
    part.cursor, skipWhite_content at_end content, at_end⟩
  show part.cursor.rest.length < c.rest.length
  rw [at_end.rest, at_text.rest]
  simp only [List.length_append, List.length_cons]
  omega

theorem scalarTurn_quoted {single : Bool} {shown : Text} {c' : Cursor} {column' : Nat}
    (inner : column ≠ 0) (content : Content rest) (start : ∃ more, shown = Quoted.quote single :: more)
    (at_text : c.At column (shown ++ '\n' :: (spaces n ++ rest)))
    (reads : Quoted.read? single c = some (text, c'))
    (at_end : c'.At column' ('\n' :: (spaces n ++ rest))) :
    ScalarTurn f c (if single then .singleQuoted else .doubleQuoted) text n rest := by
  obtain ⟨more, rfl⟩ := start
  have scalar : (f.stream c false).quotedScalar? single =
      some ((f.push [.scalar (if single then .singleQuoted else .doubleQuoted) text]).stream c' false) := by
    have read_here : Quoted.read? single (f.stream c false).cursor = some (text, c') := reads
    rw [quotedScalar?, Frame.saveKey?_stream]
    simp only [Option.bind_eq_bind, Option.bind_some, read_here]
    cases single <;> rfl
  have no_mark : (f.stream c false).cursor.atDocumentMark = false := at_text.atDocumentMark inner
  have dispatch : (f.stream c false).token? (Quoted.quote single) (more ++ '\n' :: (spaces n ++ rest)) =
      (f.stream c false).quotedScalar? single := by
    cases single with
    | true => exact token?_singleQuote rfl no_mark _
    | false => exact token?_doubleQuote rfl no_mark _
  obtain ⟨c'', passed, at_next⟩ := skipWhite_feed
    (f.push [.scalar (if single then .singleQuoted else .doubleQuoted) text]) false at_end content
  refine ⟨_, _, _, at_text.rest, dispatch.trans scalar, ?_, c'', passed, at_next⟩
  show c'.rest.length < c.rest.length
  rw [at_end.rest, at_text.rest]
  simp only [List.length_append, List.length_cons]
  omega

theorem scalarTurn_literal (printable : ∀ c ∈ text, isPrintable c) (hne : text ≠ [])
    (inner : column ≠ 0) (pos : 0 < f.margin) (below : n < f.margin + 1) (content : Content rest)
    (at_text : c.At column (closed (literal (f.margin + 1) text) ++ (spaces n ++ rest))) :
    ScalarTurn f c .literal text n rest := by
  obtain ⟨c', reads, at_end⟩ :=
    Block.read?_literal printable hne below content.unspaced pos at_text
  have scalar : (f.stream c false).blockScalar? false =
      some ((f.push [.scalar .literal text]).stream c' true) := by
    have read_here : Block.read? false (f.stream c false).margin (f.stream c false).cursor =
      some (text, c') := reads
    have no_key : (f.stream c false).dropKey? = some (f.stream c false) := rfl
    rw [blockScalar?, no_key]
    simp only [Option.bind_eq_bind, Option.bind_some, read_here]
    rfl
  rw [Block.closed_literal _ hne] at at_text
  have dispatch := token?_bar (s := f.stream c false) rfl (at_text.atDocumentMark inner)
    (literalMarks text ++ '\n' :: indented (f.margin + 1) true (closed text) ++ (spaces n ++ rest))
  refine ⟨_, _, _, at_text.rest, dispatch.trans scalar, ?_, c', skipWhite_content at_end content, at_end⟩
  show c'.rest.length < c.rest.length
  rw [at_end.rest, at_text.rest]
  simp only [List.length_append, List.length_cons]
  omega

theorem scalarTurn_of_isPlainText (h : IsPlainText text) (right : f.margin ≤ column)
    (pos : 0 < f.margin) (below : n < f.margin) (content : Content rest)
    (at_text : c.At column (closed text ++ (spaces n ++ rest))) : ScalarTurn f c .plain text n rest := by
  rw [closed_of_no_break h.words.no_break_last] at at_text
  exact scalarTurn_plain h right (by omega) below content (by simpa using at_text)

theorem closed_quoted (single : Bool) (inner : Text) :
    closed (Quoted.quote single :: (inner ++ [Quoted.quote single])) =
      (Quoted.quote single :: (inner ++ [Quoted.quote single])) ++ ['\n'] := by
  refine closed_of_no_break fun d hd => ?_
  rw [← List.cons_append, List.getLast?_concat] at hd
  obtain rfl := Option.some.inj hd
  exact isBreak_eq_false_of_isWhite_eq_false (Quoted.isWhite_quote single)

/-- A string is read back in each of its styles. -/
theorem scalarTurn_string (text : Text) (right : f.margin ≤ column) (pos : 0 < f.margin)
    (below : n < f.margin) (content : Content rest)
    (at_text : c.At column (closed (printString (f.margin + 1) text) ++ (spaces n ++ rest))) :
    ScalarTurn f c (styleOf text) text n rest := by
  have inner : column ≠ 0 := by omega
  have allows := allows_styleOf text
  rw [printString] at at_text
  cases style : styleOf text with
  | plain =>
    rw [style] at allows
    simp only [style] at at_text
    exact scalarTurn_of_isPlainText (isPlainText_of_allows allows) right pos below content at_text
  | singleQuoted =>
    rw [style] at allows
    simp only [style] at at_text
    rw [Quoted.singleQuoted_eq, closed_quoted, ← Quoted.singleQuoted_eq, List.append_assoc] at at_text
    obtain ⟨c', column', reads, at_end⟩ :=
      Quoted.read?_singleQuoted f.margin allows.2 allows.1 at_text (by decide)
    exact scalarTurn_quoted inner content ⟨_, Quoted.singleQuoted_eq _ text⟩ at_text reads at_end
  | doubleQuoted =>
    simp only [style] at at_text
    rw [Quoted.doubleQuoted_eq, closed_quoted, ← Quoted.doubleQuoted_eq, List.append_assoc] at at_text
    obtain ⟨c', column', reads, at_end⟩ := Quoted.read?_doubleQuoted at_text (by decide)
    exact scalarTurn_quoted inner content ⟨_, Quoted.doubleQuoted_eq text⟩ at_text reads at_end
  | literal =>
    simp only [style, Style.Allows, allowsLiteral, Bool.and_eq_true, List.all_eq_true] at at_text allows
    exact scalarTurn_literal allows.2.1.1 (List.ne_nil_of_mem allows.1) inner pos (by omega) content
      at_text
  | folded =>
    rw [style] at allows
    exact allows.elim

theorem scalarTurn_datum (datum : Datum) (right : f.margin ≤ column) (pos : 0 < f.margin)
    (below : n < f.margin) (content : Content rest)
    (at_text : c.At column (closed (printDatum (f.margin + 1) datum) ++ (spaces n ++ rest))) :
    ScalarTurn f c datum.style datum.text n rest := by
  cases datum with
  | string text => exact scalarTurn_string text right pos below content at_text
  | number k => exact scalarTurn_of_isPlainText (isPlainText_toDigits k) right pos below content at_text
  | bool b =>
    rw [printDatum_bool] at at_text
    exact scalarTurn_of_isPlainText (isPlainText_bool b) right pos below content at_text

end Stream

end ComponentForge.Yaml

import ComponentForge.Proofs.Index.LineCuts

/-!
# The line of a match

A removal takes out the line in which the first match of its pattern begins, with one line feed, and
no other line, wherever the match ends. A match is described by what stands before it and from it on,
apart from the search that finds it; the empty line behind the last line feed is a line like any other.
-/

namespace ComponentForge

open Text

namespace Pattern

/-- What follows an identifier up to the end of its line: a comma, spaces and tabs and a carriage
return, each of which may be missing. -/
inductive Closes : Text → Prop
  | parts {comma spaces returns below : Text} : (comma = [] ∨ comma = [',']) →
    (∀ c ∈ spaces, isSpaceOrTab c) → (returns = [] ∨ returns = ['\r']) →
    (∀ c ∈ below.head?, c = '\n') → Closes (comma ++ (spaces ++ (returns ++ below)))

/-- The pattern matches where the first text ends and the second one begins. An entry is matched from
the start of its line. -/
def MatchesAt (pattern : Pattern) (before after : Text) : Prop :=
  match pattern with
  | literal needle => needle <+: after
  | entry identifier => (∀ c ∈ before.getLast?, c = '\n') ∧ ∃ lead rest,
    after = lead ++ (identifier ++ rest) ∧ (∀ c ∈ lead, isSpaceOrTab c) ∧ Closes rest

/-- The first match begins where the first part of the text ends. -/
structure FirstMatch (pattern : Pattern) (text before after : Text) : Prop where
  whole : before ++ after = text
  here : pattern.MatchesAt before after
  first : ∀ before' after', before' ++ after' = text → pattern.MatchesAt before' after' →
    before.length ≤ before'.length

theorem FirstMatch.unique {pattern : Pattern} {text a b a' b' : Text}
    (h : pattern.FirstMatch text a b) (h' : pattern.FirstMatch text a' b') : a = a' ∧ b = b' :=
  List.append_inj (h.whole.trans h'.whole.symm)
    (Nat.le_antisymm (h.first a' b' h'.whole h'.here) (h'.first a b h.whole h.here))

theorem atLineEnd_iff {text : Text} : atLineEnd text ↔ ∀ c ∈ text.head?, c = '\n' := by
  cases text <;> simp [atLineEnd]

theorem skip_of_head {c : Char} {text : Text} (h : ∀ d ∈ text.head?, d ≠ c) : skip c text = text := by
  cases text with
  | nil => rfl
  | cons d rest => simp [skip, h d (by simp)]

theorem skip_append {c : Char} {lead text : Text} (hlead : lead = [] ∨ lead = [c])
    (h : ∀ d ∈ text.head?, d ≠ c) : skip c (lead ++ text) = text := by
  rcases hlead with rfl | rfl
  · exact skip_of_head h
  · simp [skip]

theorem dropWhile_append_of_head {p : Char → Bool} {lead text : Text} (hlead : ∀ c ∈ lead, p c)
    (h : ∀ c ∈ text.head?, p c = false) : (lead ++ text).dropWhile p = text := by
  rw [List.dropWhile_append_of_pos hlead]
  cases text with
  | nil => rfl
  | cons c rest => simp [h c (by simp)]

/-- The search passes over what may stand behind an identifier, each part of it once. -/
theorem closesEntry_iff {rest : Text} : closesEntry rest ↔ Closes rest := by
  constructor
  · intro closes
    obtain ⟨comma, hcomma, whole⟩ := Index.exists_skip ',' rest
    obtain ⟨returns, hreturns, below⟩ :=
      Index.exists_skip '\r' ((skip ',' rest).dropWhile isSpaceOrTab)
    have parts := List.takeWhile_append_dropWhile (p := isSpaceOrTab) (l := skip ',' rest)
    rw [closesEntry, atLineEnd_iff] at closes
    rw [← parts, below] at whole
    rw [whole]
    exact .parts hcomma (fun c hc => List.mem_takeWhile_imp hc) hreturns closes
  · rintro ⟨hcomma, hspaces, hreturns, hbelow⟩
    rename_i comma spaces returns below
    have ends : ∀ c ∈ (returns ++ below).head?, c = '\r' ∨ c = '\n' := by
      intro c hc
      rcases hreturns with rfl | rfl
      · exact Or.inr (hbelow c hc)
      · exact Or.inl (by simpa using hc.symm)
    have spaced : ∀ c ∈ (returns ++ below).head?, isSpaceOrTab c = false := by
      intro c hc
      rcases ends c hc with rfl | rfl <;> rfl
    have uncommaed : ∀ c ∈ (spaces ++ (returns ++ below)).head?, c ≠ ',' := by
      rintro c hc rfl
      cases spaces with
      | nil => rcases ends _ hc with h | h <;> exact absurd h (by decide)
      | cons d more =>
        obtain rfl : d = ',' := by simpa using hc
        exact absurd (hspaces ',' List.mem_cons_self) (by decide)
    rw [closesEntry, skip_append hcomma uncommaed, dropWhile_append_of_head hspaces spaced,
      skip_append hreturns (fun c hc same => absurd ((hbelow c hc).symm.trans same) (by decide)),
      atLineEnd_iff]
    exact hbelow

theorem opensEntry_iff_lines {identifier text : Text} : opensEntry identifier text ↔
    ∃ lead rest, text = lead ++ (identifier ++ rest) ∧ (∀ c ∈ lead, isSpaceOrTab c) ∧
      Closes rest := by
  simp only [Index.opensEntry_iff, closesEntry_iff]

theorem matchesAt_entry {identifier before after : Text} :
    (entry identifier).MatchesAt before after ↔
      (∀ c ∈ before.getLast?, c = '\n') ∧ opensEntry identifier after := by
  rw [opensEntry_iff_lines]
  rfl

theorem startsLineAfter_true {before : Text} :
    StartsLineAfter true before ↔ ∀ c ∈ before.getLast?, c = '\n' := by
  simp [StartsLineAfter]

theorem exists_splitListing? {identifier before after : Text} {lineStart : Bool}
    (starts : StartsLineAfter lineStart before) (opens : opensEntry identifier after) :
    ∃ b a, splitListing? identifier lineStart (before ++ after) = some (b, a) ∧
      b.length ≤ before.length := by
  induction before generalizing lineStart with
  | nil =>
    have here : lineStart && opensEntry identifier after := by
      rw [Bool.and_eq_true, ← startsLineAfter_nil]
      exact ⟨starts, opens⟩
    refine ⟨[], after, ?_, Nat.le_refl _⟩
    cases after <;> rw [List.nil_append, splitListing?, if_pos here]
  | cons c before ih =>
    rw [List.cons_append, splitListing?]
    split
    · exact ⟨[], _, rfl, Nat.zero_le _⟩
    · obtain ⟨b, a, found, shorter⟩ := ih (startsLineAfter_cons.1 starts)
      exact ⟨c :: b, a, by simp [found], by simpa using shorter⟩

theorem exists_splitBefore? {needle before after : Text} (here : needle <+: after) :
    ∃ b a, (before ++ after).splitBefore? needle = some (b, a) ∧ b.length ≤ before.length := by
  induction before with
  | nil => exact ⟨[], after, splitBefore?_of_prefix here, Nat.le_refl _⟩
  | cons c before ih =>
    obtain ⟨b, a, found, shorter⟩ := ih
    rw [splitBefore?] at found
    rw [List.cons_append, splitBefore?, splitWhere?]
    split
    · exact ⟨[], _, rfl, Nat.zero_le _⟩
    · exact ⟨c :: b, a, by rw [found]; rfl, by simpa using shorter⟩

theorem matchesAt_of_split? {pattern : Pattern} {text before after : Text}
    (h : pattern.split? text = some (before, after)) : pattern.MatchesAt before after := by
  cases pattern with
  | literal needle => exact prefix_of_splitBefore? h
  | entry identifier =>
    rw [matchesAt_entry, ← startsLineAfter_true]
    exact matches_of_splitListing? h

/-- A search stops at a match at the latest. -/
theorem exists_split? {pattern : Pattern} {before after : Text}
    (here : pattern.MatchesAt before after) :
    ∃ b a, pattern.split? (before ++ after) = some (b, a) ∧ b.length ≤ before.length := by
  cases pattern with
  | literal needle => exact exists_splitBefore? here
  | entry identifier =>
    rw [matchesAt_entry, ← startsLineAfter_true] at here
    exact exists_splitListing? here.1 here.2

theorem firstMatch_of_split? {pattern : Pattern} {text before after : Text}
    (h : pattern.split? text = some (before, after)) : pattern.FirstMatch text before after where
  whole := append_of_split? h
  here := matchesAt_of_split? h
  first := by
    rintro before' after' rfl here
    obtain ⟨b, a, found, shorter⟩ := exists_split? here
    rw [h] at found
    obtain ⟨rfl, -⟩ := Prod.mk.inj (Option.some.inj found)
    exact shorter

/-- A search finds the first match. -/
theorem split?_eq_some_iff {pattern : Pattern} {text before after : Text} :
    pattern.split? text = some (before, after) ↔ pattern.FirstMatch text before after := by
  refine ⟨firstMatch_of_split?, fun h => ?_⟩
  obtain ⟨b, a, found, -⟩ := exists_split? h.here
  rw [h.whole] at found
  obtain ⟨rfl, rfl⟩ := h.unique (firstMatch_of_split? found)
  exact found

theorem split?_eq_none_iff {pattern : Pattern} {text : Text} : pattern.split? text = none ↔
    ∀ before after, before ++ after = text → ¬ pattern.MatchesAt before after := by
  constructor
  · rintro none before after rfl here
    obtain ⟨b, a, found, -⟩ := exists_split? here
    rw [none] at found
    cases found
  · intro missed
    cases found : pattern.split? text with
    | none => rfl
    | some parts => exact absurd (matchesAt_of_split? found) (missed _ _ (append_of_split? found))

end Pattern

namespace Index

/-- A text ends in a line that is open, below lines with their line feeds. -/
theorem exists_openLine (before : Text) : ∃ (above : List Text) (lead : Text),
    (∀ row ∈ above, Terminated row) ∧ '\n' ∉ lead ∧ before = above.flatten ++ lead := by
  induction before using lineInduction with
  | last before hlast => exact ⟨[], before, by simp, hlast, rfl⟩
  | line body rest hbody ih =>
    obtain ⟨above, lead, terminated, hlead, rfl⟩ := ih
    refine ⟨(body ++ ['\n']) :: above, lead, ?_, hlead, by simp⟩
    rw [List.forall_mem_cons]
    exact ⟨⟨body, hbody, rfl⟩, terminated⟩

section Place

variable (before after : Text)

theorem count_lt_length_segments : before.count '\n' < (segments (before ++ after)).length := by
  obtain ⟨above, lead, terminated, hlead, rfl⟩ := exists_openLine before
  have rest := List.length_pos_iff.2 (pieces_ne_nil (· == '\n') (lead ++ after))
  rw [List.append_assoc, segments_rows terminated, List.count_append, count_flatten terminated,
    List.count_eq_zero_of_not_mem hlead, List.length_append, List.length_map]
  exact Nat.add_lt_add_left rest _

/-- What goes with a place is the line whose number is that of the line feeds before the place. -/
theorem removeLineAt_eq : removeLineAt before after =
    unlines ((segments (before ++ after)).eraseIdx (before.count '\n')) := by
  obtain ⟨above, lead, terminated, hlead, rfl⟩ := exists_openLine before
  have number : (above.flatten ++ lead).count '\n' = (above.map List.dropLast).length := by
    rw [List.count_append, count_flatten terminated, List.count_eq_zero_of_not_mem hlead,
      List.length_map, Nat.add_zero]
  rw [number, List.append_assoc, segments_rows terminated,
    List.eraseIdx_append_of_length_le (Nat.le_refl _), Nat.sub_self]
  by_cases broken : '\n' ∈ after
  · obtain ⟨rest, below, rfl, hrest⟩ := List.eq_append_cons_of_mem broken
    have line : '\n' ∉ lead ++ rest := by simp [hlead, hrest]
    rw [removeLineAt_rows terminated hlead hrest, ← List.append_assoc lead, segments_line,
      segments_of_notMem line, List.singleton_append, List.eraseIdx_cons_zero,
      ← segments_rows terminated, unlines_segments]
  · -- the last line goes together with the line feed above it
    have line : '\n' ∉ lead ++ after := by simp [hlead, broken]
    rw [removeLineAt_last terminated hlead broken, segments_of_notMem line, List.eraseIdx_cons_zero,
      List.append_nil, unlines_dropLast terminated]

end Place

/-- A removal takes out the line in which the first match begins, and nothing else; without a match it
takes out nothing. -/
theorem withoutLine_erases (content : Text) (pattern : Pattern) :
    (∃ before after, pattern.FirstMatch content before after ∧
      before.count '\n' < (segments content).length ∧
      withoutLine content pattern = unlines ((segments content).eraseIdx (before.count '\n')) ∧
      removeLine? content pattern = some (withoutLine content pattern)) ∨
    (∀ before after, before ++ after = content → ¬ pattern.MatchesAt before after) ∧
      withoutLine content pattern = content ∧ removeLine? content pattern = none := by
  cases found : pattern.split? content with
  | none =>
    have kept : removeLine? content pattern = none := by rw [removeLine?, found]; rfl
    exact Or.inr ⟨Pattern.split?_eq_none_iff.1 found, by rw [withoutLine, kept]; rfl, kept⟩
  | some parts =>
    obtain ⟨before, after⟩ := parts
    have first := Pattern.split?_eq_some_iff.1 found
    have removed : removeLine? content pattern = some (removeLineAt before after) := by
      rw [removeLine?, found]
      rfl
    have left : withoutLine content pattern = removeLineAt before after := by
      rw [withoutLine, removed]
      rfl
    refine Or.inl ⟨before, after, first, ?_, ?_, by rw [left, removed]⟩
    · rw [← first.whole]
      exact count_lt_length_segments before after
    · rw [left, removeLineAt_eq, first.whole]

/-- A match over two lines takes out the line in which it begins, and the empty line at the end of a
text is one. -/
example : withoutLine "a\nb\nc".toList (.literal "b\nc".toList) = "a\nc".toList ∧
    withoutLine "a\n".toList (.entry []) = "a".toList := by decide

end Index

end ComponentForge

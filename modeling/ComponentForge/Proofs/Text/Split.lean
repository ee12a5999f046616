import ComponentForge.Text.Blank
import ComponentForge.Text.Rows
import Mathlib.Data.List.Basic

/-!
# Where a text is split

A split at the end leaves a body whose last character is kept and an ending of characters that go;
these two facts determine it. A split before a needle finds the first occurrence, so it looks at
the lines of a text one after the other when the needle has no line feed.
-/

namespace ComponentForge.Text

section Ending

variable {p : Char → Bool} {body ending text : Text}

theorem splitEnd_of_all (h : ∀ c ∈ ending, p c) : splitEnd p ending = ([], ending) := by
  induction ending with
  | nil => rfl
  | cons c rest ih =>
    have hc : p c := h c List.mem_cons_self
    have hrest := ih fun d hd => h d (List.mem_cons_of_mem c hd)
    simp [splitEnd, hrest, hc]

theorem splitEnd_append_of_last (hbody : ∀ c ∈ body.getLast?, p c = false)
    (hending : ∀ c ∈ ending, p c) : splitEnd p (body ++ ending) = (body, ending) := by
  induction body with
  | nil => exact splitEnd_of_all hending
  | cons c rest ih =>
    cases rest with
    | nil =>
      have hc : p c = false := hbody c (by simp)
      simp [splitEnd, splitEnd_of_all hending, hc]
    | cons d rest =>
      have hrest := ih fun e he => hbody e (by simpa using he)
      simp only [List.cons_append] at hrest ⊢
      rw [splitEnd, hrest]
      simp

theorem splitEnd_ending (c : Char) (h : c ∈ (splitEnd p text).2) : p c := by
  induction text with
  | nil => simp [splitEnd] at h
  | cons d rest ih =>
    simp only [splitEnd] at h
    split at h
    · rename_i stays
      rcases List.mem_cons.1 h with rfl | h
      · simp_all
      · exact ih h
    · exact ih h

theorem splitEnd_body (c : Char) (h : c ∈ (splitEnd p text).1.getLast?) : p c = false := by
  induction text with
  | nil => simp [splitEnd] at h
  | cons d rest ih =>
    simp only [splitEnd] at h
    split at h
    · simp at h
    · rename_i stays
      cases hbody : (splitEnd p rest).1 with
      | nil =>
        rw [hbody] at h stays
        obtain rfl : d = c := by simpa using h
        simpa using stays
      | cons e more =>
        rw [hbody] at h
        exact ih (by simpa [hbody] using h)

end Ending

theorem isBlank_lineFeed : isBlank '\n' = true := rfl

theorem isBlank_carriageReturn : isBlank '\r' = true := rfl

theorem trimEnd_append_of_last {body ending : Text} (hbody : ∀ c ∈ body.getLast?, isBlank c = false)
    (hending : ∀ c ∈ ending, isBlank c) : trimEnd (body ++ ending) = body := by
  rw [trimEnd, splitEnd_append_of_last hbody hending]

theorem trimEnd_of_last {body : Text} (hbody : ∀ c ∈ body.getLast?, isBlank c = false) :
    trimEnd body = body := by
  have h := trimEnd_append_of_last hbody fun c (hc : c ∈ ([] : Text)) => absurd hc List.not_mem_nil
  simpa using h

theorem last_of_trimEnd_eq {body : Text} (h : trimEnd body = body) (c : Char)
    (hc : c ∈ body.getLast?) : isBlank c = false := by
  rw [← h] at hc
  exact splitEnd_body c hc

/-- Blank characters after a text make no difference to what trimming leaves. -/
theorem trimEnd_append_blank (body : Text) {ending : Text} (h : ∀ c ∈ ending, isBlank c) :
    trimEnd (body ++ ending) = trimEnd body := by
  have hsplit := splitEnd_append isBlank body
  conv => lhs; rw [← hsplit, List.append_assoc]
  refine trimEnd_append_of_last (fun c => splitEnd_body c) ?_
  intro c hc
  rcases List.mem_append.1 hc with hc | hc
  · exact splitEnd_ending c hc
  · exact h c hc

theorem trimEnd_infix (text : Text) : trimEnd text <:+: text :=
  ⟨[], (splitEnd isBlank text).2, splitEnd_append isBlank text⟩

theorem eq_append_of_endsWith {text : Text} {c : Char} (h : text.endsWith c) :
    ∃ front, text = front ++ [c] := by
  rcases List.eq_nil_or_concat text with rfl | ⟨front, last, rfl⟩
  · simp [endsWith] at h
  · exact ⟨front, by simpa [endsWith] using h⟩

section Needle

variable {needle : Text}

theorem after?_isSome_iff (text needle : Text) : (text.after? needle).isSome ↔ needle <+: text := by
  rw [Option.isSome_iff_exists]
  constructor
  · rintro ⟨rest, h⟩
    exact ⟨rest, (after?_eq_some_iff.1 h).symm⟩
  · rintro ⟨rest, h⟩
    exact ⟨rest, after?_eq_some_iff.2 h.symm⟩

theorem splitWhere?_eq_none {found : Text → Bool} {text : Text} :
    splitWhere? found text = none ↔ ∀ rest, rest <:+ text → found rest = false := by
  induction text with
  | nil => simp [splitWhere?]
  | cons c rest ih =>
    rw [splitWhere?]
    split
    · rename_i h
      simp only [reduceCtorEq, false_iff, not_forall]
      exact ⟨c :: rest, List.suffix_refl _, by simp [h]⟩
    · rename_i h
      rw [Option.map_eq_none_iff, ih]
      constructor
      · intro none_below rest' hrest'
        rcases List.suffix_cons_iff.1 hrest' with rfl | hrest'
        · simpa using h
        · exact none_below rest' hrest'
      · intro none_here rest' hrest'
        exact none_here rest' (hrest'.trans (List.suffix_cons c rest))

theorem splitBefore?_eq_none_iff {text : Text} :
    text.splitBefore? needle = none ↔ ¬ needle <:+: text := by
  rw [splitBefore?, splitWhere?_eq_none]
  constructor
  · rintro h ⟨before, after, rfl⟩
    have found := h (needle ++ after) ⟨before, by simp⟩
    rw [← Bool.not_eq_true, after?_isSome_iff] at found
    exact found (List.prefix_append needle after)
  · intro h rest ⟨before, hrest⟩
    rw [← Bool.not_eq_true, after?_isSome_iff]
    rintro ⟨after, rfl⟩
    exact h ⟨before, after, by simpa using hrest⟩

theorem splitBefore?_of_prefix {text : Text} (h : needle <+: text) :
    text.splitBefore? needle = some ([], text) := by
  have found := (after?_isSome_iff text needle).2 h
  cases text with
  | nil => simp [splitBefore?, splitWhere?, found]
  | cons c rest => simp [splitBefore?, splitWhere?, found]

/-- What a split finds begins with the needle. -/
theorem prefix_of_splitBefore? {text before after : Text}
    (h : text.splitBefore? needle = some (before, after)) : needle <+: after := by
  rw [splitBefore?] at h
  induction text generalizing before after with
  | nil =>
    simp only [splitWhere?] at h
    split at h
    · rename_i found
      obtain ⟨rfl, rfl⟩ := Prod.mk.inj (Option.some.inj h)
      exact (after?_isSome_iff _ _).1 found
    · simp at h
  | cons c rest ih =>
    simp only [splitWhere?] at h
    split at h
    · rename_i found
      obtain ⟨rfl, rfl⟩ := Prod.mk.inj (Option.some.inj h)
      exact (after?_isSome_iff _ _).1 found
    · obtain ⟨⟨b, a⟩, hb, hab⟩ := Option.map_eq_some_iff.1 h
      obtain ⟨rfl, rfl⟩ := Prod.mk.inj hab
      exact ih hb

theorem append_of_splitBefore? {text before after : Text}
    (h : text.splitBefore? needle = some (before, after)) : before ++ after = text :=
  append_of_splitWhere? h

theorem splitBefore?_char {c : Char} {before : Text} (h : c ∉ before) (after : Text) :
    (before ++ c :: after).splitBefore? [c] = some (before, c :: after) := by
  induction before with
  | nil => exact splitBefore?_of_prefix (by simp)
  | cons d before ih =>
    obtain ⟨hd, hmore⟩ := List.ne_and_not_mem_of_not_mem_cons h
    have hbefore := ih hmore
    simp only [splitBefore?] at hbefore ⊢
    simp [splitWhere?, after?, hd.symm, hbefore]

theorem cut?_char {c : Char} {before : Text} (h : c ∉ before) (after : Text) :
    (before ++ c :: after).cut? [c] = some (before, after) := by
  simp [cut?, splitBefore?_char h, after?]

/-- The first occurrence of a needle does not depend on what follows it. -/
theorem splitBefore?_of_same {before after : Text}
    (h : splitBefore? (before ++ (needle ++ after)) needle = some (before, needle ++ after))
    (other : Text) :
    splitBefore? (before ++ (needle ++ other)) needle = some (before, needle ++ other) := by
  induction before with
  | nil => exact splitBefore?_of_prefix (List.prefix_append needle other)
  | cons c before ih =>
    simp only [splitBefore?, List.cons_append, splitWhere?] at h ih ⊢
    split at h
    · simp at h
    · rename_i not_here
      obtain ⟨⟨b, a⟩, found, same⟩ := Option.map_eq_some_iff.1 h
      obtain ⟨same_before, same_after⟩ := Prod.mk.inj same
      obtain rfl := List.cons.inj same_before |>.2
      have below := ih (same_after ▸ found)
      rw [below, if_neg]
      · rfl
      rw [after?_isSome_iff] at not_here ⊢
      rw [← List.cons_append, ← List.append_assoc] at not_here ⊢
      intro lead
      have inside : needle <+: c :: b ++ needle :=
        List.prefix_of_prefix_length_le lead (List.prefix_append _ other) (by simp; omega)
      exact not_here (inside.trans (List.prefix_append _ after))

/-- A needle lies on one side of a character that it does not have, such as a line feed. -/
theorem prefix_append_cons_iff {b : Char} (hneedle : b ∉ needle) (body rest : Text) :
    needle <+: body ++ b :: rest ↔ needle <+: body := by
  induction body generalizing needle with
  | nil =>
    cases needle with
    | nil => simp
    | cons c more =>
      have hc := List.ne_of_not_mem_cons hneedle
      simp [List.cons_prefix_cons, hc.symm]
  | cons d body ih =>
    cases needle with
    | nil => simp
    | cons c more =>
      simp [List.cons_prefix_cons, ih (List.not_mem_of_not_mem_cons hneedle)]

theorem splitBefore?_append_cons (hne : needle ≠ []) {b : Char} (hneedle : b ∉ needle) (body rest : Text) :
    (body ++ b :: rest).splitBefore? needle =
      ((body.splitBefore? needle).map fun (before, after) => (before, after ++ b :: rest)).or
        ((rest.splitBefore? needle).map fun (before, after) =>
          (body ++ b :: before, after)) := by
  induction body with
  | nil =>
    have not_here : ¬ needle <+: b :: rest := by
      have h := prefix_append_cons_iff hneedle [] rest
      simpa [hne] using h
    have not_nil : ¬ needle <+: [] := by simpa using hne
    rw [← after?_isSome_iff] at not_here not_nil
    simp [splitBefore?, splitWhere?, not_here, not_nil]
  | cons c body ih =>
    have same : (after? (c :: (body ++ b :: rest)) needle).isSome =
        (after? (c :: body) needle).isSome := by
      rw [Bool.eq_iff_iff, after?_isSome_iff, after?_isSome_iff, ← List.cons_append]
      exact prefix_append_cons_iff hneedle (c :: body) rest
    simp only [splitBefore?] at ih ⊢
    rw [List.cons_append, splitWhere?, splitWhere?, same, ih]
    split
    · simp
    · cases splitWhere? (fun rest => (rest.after? needle).isSome) body <;>
        simp [Function.comp_def]

theorem infix_append_cons_iff (hne : needle ≠ []) {b : Char} (hneedle : b ∉ needle) (body rest : Text) :
    needle <:+: body ++ b :: rest ↔ needle <:+: body ∨ needle <:+: rest := by
  rw [← not_iff_not, not_or, ← splitBefore?_eq_none_iff, ← splitBefore?_eq_none_iff,
    ← splitBefore?_eq_none_iff, splitBefore?_append_cons hne hneedle]
  simp

/-- No end of the needle but the whole of it is also its beginning, so that two occurrences of it in
a text never overlap. -/
def Solid (needle : Text) : Prop :=
  ∀ n < needle.length, 0 < n → ¬ needle.drop n <+: needle

instance (needle : Text) : Decidable (Solid needle) :=
  inferInstanceAs (Decidable (∀ n < needle.length, 0 < n → ¬ needle.drop n <+: needle))

section Solid

variable {before after text : Text}

/-- Before an occurrence of a solid needle another one begins only if it ends there, too. -/
theorem Solid.prefix_of_prefix (solid : Solid needle) (hne : before ≠ [])
    (h : needle <+: before ++ (needle ++ after)) : needle <+: before := by
  rcases Nat.lt_or_ge before.length needle.length with short | long
  · exfalso
    obtain ⟨rest, rfl⟩ :=
      List.prefix_of_prefix_length_le (List.prefix_append before _) h (Nat.le_of_lt short)
    have inside := (List.prefix_append_right_inj before).1 h
    rw [List.append_assoc] at inside
    apply solid before.length short (List.length_pos_iff.2 hne)
    rw [List.drop_left]
    rw [← List.append_assoc] at inside
    exact List.prefix_of_prefix_length_le inside (List.prefix_append _ after) (by simp)
  · exact List.prefix_of_prefix_length_le h (List.prefix_append before _) long

/-- The first occurrence of a solid needle is the one before which there is none. -/
theorem Solid.splitBefore? (solid : Solid needle) (free : ¬ needle <:+: before) (after : Text) :
    Text.splitBefore? (before ++ (needle ++ after)) needle = some (before, needle ++ after) := by
  induction before with
  | nil => exact splitBefore?_of_prefix (List.prefix_append needle after)
  | cons c before ih =>
    have free_below : ¬ needle <:+: before := fun inside => free (List.infix_cons inside)
    have not_here : ¬ needle <+: c :: before ++ (needle ++ after) := fun here =>
      free (solid.prefix_of_prefix (by simp) here).isInfix
    have below := ih free_below
    rw [← after?_isSome_iff] at not_here
    simp only [Text.splitBefore?, List.cons_append, splitWhere?] at below not_here ⊢
    rw [if_neg not_here, below]
    rfl

theorem Solid.cut? (solid : Solid needle) (free : ¬ needle <:+: before) (after : Text) :
    Text.cut? (before ++ (needle ++ after)) needle = some (before, after) := by
  have rest : after? (needle ++ after) needle = some after := after?_eq_some_iff.2 rfl
  simp [Text.cut?, solid.splitBefore? free after, rest]

/-- Before the place that a split finds the needle does not occur. -/
theorem not_infix_of_splitBefore? (hne : needle ≠ [])
    (h : text.splitBefore? needle = some (before, after)) : ¬ needle <:+: before := by
  rw [Text.splitBefore?] at h
  induction text generalizing before after with
  | nil =>
    simp only [splitWhere?] at h
    split at h
    · obtain ⟨rfl, rfl⟩ := Prod.mk.inj (Option.some.inj h)
      simpa using hne
    · cases h
  | cons c rest ih =>
    simp only [splitWhere?] at h
    split at h
    · obtain ⟨rfl, rfl⟩ := Prod.mk.inj (Option.some.inj h)
      simpa using hne
    · rename_i not_here
      obtain ⟨⟨b, a⟩, found, same⟩ := Option.map_eq_some_iff.1 h
      obtain ⟨rfl, rfl⟩ := Prod.mk.inj same
      have whole := append_of_splitWhere? found
      rw [after?_isSome_iff, ← whole, ← List.cons_append] at not_here
      rw [List.infix_cons_iff, not_or]
      exact ⟨fun here => not_here (here.trans (List.prefix_append _ a)), ih found⟩

/-- A cut is at an occurrence before which there is none. -/
theorem Solid.cut?_eq_some_iff (solid : Solid needle) (hne : needle ≠ []) :
    text.cut? needle = some (before, after) ↔
      text = before ++ (needle ++ after) ∧ ¬ needle <:+: before := by
  constructor
  · intro h
    simp only [Text.cut?, Option.bind_eq_bind, Option.bind_eq_some_iff] at h
    obtain ⟨⟨b, a⟩, split, rest, found, same⟩ := h
    obtain ⟨rfl, rfl⟩ := Prod.mk.inj (Option.some.inj same)
    rw [after?_eq_some_iff] at found
    subst found
    exact ⟨(append_of_splitWhere? split).symm, not_infix_of_splitBefore? hne split⟩
  · rintro ⟨rfl, free⟩
    exact solid.cut? free after

theorem cut?_eq_none_iff : text.cut? needle = none ↔ ¬ needle <:+: text := by
  rw [← splitBefore?_eq_none_iff]
  constructor
  · intro h
    cases split : text.splitBefore? needle with
    | none => rfl
    | some found =>
      obtain ⟨b, a⟩ := found
      obtain ⟨rest, rfl⟩ := prefix_of_splitBefore? split
      have rest_found : after? (needle ++ rest) needle = some rest := after?_eq_some_iff.2 rfl
      simp [Text.cut?, split, rest_found] at h
  · intro h
    simp [Text.cut?, h]

end Solid

end Needle

end ComponentForge.Text

import Mathlib.Data.List.Induction
import ComponentForge.Proofs.Text.Split

/-!
# Terminated rows

Rows that have their line feed can be put together freely: the rows of their concatenation with
any text are these rows and then the rows of that text. Line edits are stated on such
concatenations, so that a place in a text is a number of rows and nothing is counted twice.
-/

namespace ComponentForge.Text

/-- A row that has its line feed. -/
def Terminated (row : Text) : Prop :=
  ∃ body, '\n' ∉ body ∧ row = body ++ ['\n']

/-- A line with its line feed. -/
def terminate (line : Text) : Text :=
  line ++ ['\n']

theorem terminated_terminate {line : Text} (h : '\n' ∉ line) : Terminated (terminate line) :=
  ⟨line, h, rfl⟩

theorem terminated_concat {above : List Text} {row : Text} (habove : ∀ r ∈ above, Terminated r)
    (hrow : Terminated row) : ∀ r ∈ above ++ [row], Terminated r := by
  intro r hr
  rcases List.mem_append.1 hr with hr | hr
  · exact habove r hr
  · exact List.mem_singleton.1 hr ▸ hrow

theorem rows_line_append {body : Text} (h : '\n' ∉ body) (rest : Text) :
    rows (body ++ '\n' :: rest) = (body ++ ['\n']) :: rows rest := by
  induction body with
  | nil => simp [rows]
  | cons c body ih =>
    obtain ⟨hc, hbody⟩ := List.ne_and_not_mem_of_not_mem_cons h
    simp [rows, hc.symm, ih hbody]

theorem rows_of_notMem {text : Text} (h : '\n' ∉ text) (hne : text ≠ []) : rows text = [text] := by
  induction text with
  | nil => exact absurd rfl hne
  | cons c rest ih =>
    obtain ⟨hc, hrest⟩ := List.ne_and_not_mem_of_not_mem_cons h
    cases rest with
    | nil => simp [rows, hc.symm]
    | cons d more =>
      rw [rows, if_neg hc.symm, ih hrest (by simp)]

theorem rows_append {above : List Text} (h : ∀ row ∈ above, Terminated row) (rest : Text) :
    rows (above.flatten ++ rest) = above ++ rows rest := by
  induction above with
  | nil => simp
  | cons row above ih =>
    obtain ⟨body, hbody, rfl⟩ := h row List.mem_cons_self
    have habove := ih fun r hr => h r (List.mem_cons_of_mem _ hr)
    have regroup : ((body ++ ['\n']) :: above).flatten ++ rest =
        body ++ '\n' :: (above.flatten ++ rest) := by simp
    rw [regroup, rows_line_append hbody, habove]
    simp

theorem rows_eq_nil_iff {text : Text} : rows text = [] ↔ text = [] := by
  constructor
  · intro h
    rw [← rows_flatten text, h]
    rfl
  · rintro rfl
    rfl

/-- A text is one line without a line feed, or a line with one and then a text. -/
@[elab_as_elim]
theorem lineInduction {motive : Text → Prop} (last : ∀ text, '\n' ∉ text → motive text)
    (line : ∀ body rest, '\n' ∉ body → motive rest → motive (body ++ '\n' :: rest))
    (text : Text) : motive text := by
  induction hn : text.length using Nat.strongRecOn generalizing text with
  | ind n ih =>
    by_cases h : '\n' ∈ text
    · obtain ⟨body, rest, rfl, hbody⟩ := List.eq_append_cons_of_mem h
      exact line body rest hbody (ih rest.length (by simp [← hn]; omega) rest rfl)
    · exact last text h

theorem terminated_of_rows_eq {text : Text} {above below : List Text}
    (h : rows text = above ++ below) (hbelow : below ≠ []) : ∀ row ∈ above, Terminated row := by
  induction text using lineInduction generalizing above with
  | last text hlast =>
    cases above with
    | nil => simp
    | cons row above =>
      have hne : text ≠ [] := by rintro rfl; simp [rows] at h
      rw [rows_of_notMem hlast hne] at h
      exact absurd (List.append_eq_nil_iff.1 (List.cons.inj h).2.symm).2 hbelow
  | line body rest hbody ih =>
    cases above with
    | nil => simp
    | cons row above =>
      rw [rows_line_append hbody] at h
      obtain ⟨rfl, hrest⟩ := List.cons.inj h
      intro r hr
      rcases List.mem_cons.1 hr with rfl | hr
      · exact ⟨body, hbody, rfl⟩
      · exact ih hrest r hr

/-- The last line break of a text. -/
theorem exists_lastBreak {text : Text} (h : '\n' ∈ text) :
    ∃ above last : Text, text = above ++ '\n' :: last ∧ '\n' ∉ last := by
  induction text using List.reverseRecOn with
  | nil => cases h
  | append_singleton text c ih =>
    by_cases here : c = '\n'
    · exact ⟨text, [], by simp [here], by simp⟩
    · obtain ⟨above, last, rfl, hlast⟩ := ih (by simpa [Ne.symm here] using h)
      exact ⟨above, last ++ [c], by simp, by simp [hlast, Ne.symm here]⟩

theorem exists_terminated (text : Text) : ∃ above : List Text,
    (∀ row ∈ above, Terminated row) ∧ above.flatten = text ++ ['\n'] := by
  induction text using lineInduction with
  | last text hlast => exact ⟨[text ++ ['\n']], by simpa using ⟨text, hlast, rfl⟩, by simp⟩
  | line body rest hbody ih =>
    obtain ⟨above, terminated, whole⟩ := ih
    refine ⟨(body ++ ['\n']) :: above, ?_, by simp [whole]⟩
    rw [List.forall_mem_cons]
    exact ⟨⟨body, hbody, rfl⟩, terminated⟩

theorem flatten_of_rows_eq {text : Text} {above below : List Text}
    (h : rows text = above ++ below) : text = above.flatten ++ below.flatten := by
  rw [← rows_flatten text, h, List.flatten_append]

/-- Rows cut off at the end are the rows of the text that they make up. -/
theorem rows_flatten_of_rows_eq {text : Text} {above below : List Text}
    (h : rows text = above ++ below) : rows below.flatten = below := by
  by_cases hbelow : below = []
  · subst hbelow
    rfl
  · have habove := terminated_of_rows_eq h hbelow
    have hrows := rows_append habove below.flatten
    rw [← flatten_of_rows_eq h, h] at hrows
    exact (List.append_cancel_left hrows).symm

theorem count_flatten {above : List Text} (h : ∀ row ∈ above, Terminated row) :
    above.flatten.count '\n' = above.length := by
  induction above with
  | nil => rfl
  | cons row above ih =>
    obtain ⟨body, hbody, rfl⟩ := h row List.mem_cons_self
    have habove := ih fun r hr => h r (List.mem_cons_of_mem _ hr)
    simp [habove, List.count_eq_zero_of_not_mem hbody]

theorem getLast?_flatten {above : List Text} (h : ∀ row ∈ above, Terminated row)
    (hne : above ≠ []) : above.flatten.getLast? = some '\n' := by
  obtain ⟨front, row, rfl⟩ := List.eq_nil_or_concat above |>.resolve_left hne
  obtain ⟨body, -, rfl⟩ := h row (by simp)
  simp

/-- The last line feed of a text is that of its last row. -/
theorem dropLast_flatten (front : List Text) (body : Text) :
    (front ++ [body ++ ['\n']]).flatten.dropLast = front.flatten ++ body := by
  rw [List.flatten_append, List.flatten_singleton, ← List.append_assoc, List.dropLast_concat]

/-- A character stands in the row whose number is that of the line feeds before it. -/
theorem count_lt_length_rows (before : Text) (c : Char) (after : Text) :
    before.count '\n' < (rows (before ++ c :: after)).length := by
  induction before using lineInduction with
  | last before hbefore =>
    rw [List.count_eq_zero_of_not_mem hbefore]
    apply List.length_pos_iff.2
    rw [Ne, rows_eq_nil_iff]
    simp
  | line body rest hbody ih =>
    rw [List.append_assoc, List.cons_append, rows_line_append hbody]
    simpa [List.count_eq_zero_of_not_mem hbody] using ih

/-- Every line feed ends a row, and at most one row has none. -/
theorem length_rows_bounds (text : Text) :
    text.count '\n' ≤ (rows text).length ∧ (rows text).length ≤ text.count '\n' + 1 := by
  induction text using lineInduction with
  | last text hlast =>
    rw [List.count_eq_zero_of_not_mem hlast]
    by_cases hne : text = []
    · simp [hne, rows]
    · simp [rows_of_notMem hlast hne]
  | line body rest hbody ih =>
    rw [rows_line_append hbody, List.length_cons, List.count_append, List.count_cons_self,
      List.count_eq_zero_of_not_mem hbody]
    omega

/-- A needle without line feeds is found in the rows or below them. -/
theorem splitBefore?_rows_append {needle : Text} (hne : needle ≠ []) (hneedle : '\n' ∉ needle)
    {above : List Text} (h : ∀ row ∈ above, Terminated row) (rest : Text) :
    splitBefore? (above.flatten ++ rest) needle =
      ((splitBefore? above.flatten needle).map fun (before, after) => (before, after ++ rest)).or
        ((splitBefore? rest needle).map fun (before, after) =>
          (above.flatten ++ before, after)) := by
  induction above with
  | nil =>
    have nothing : splitBefore? [] needle = none := splitBefore?_eq_none_iff.2 (by simpa using hne)
    simp [nothing]
  | cons row above ih =>
    obtain ⟨body, -, rfl⟩ := h row List.mem_cons_self
    have habove := ih fun r hr => h r (List.mem_cons_of_mem _ hr)
    have regroup : ∀ text : Text, ((body ++ ['\n']) :: above).flatten ++ text =
        body ++ '\n' :: (above.flatten ++ text) := by simp
    have alone := regroup []
    simp only [List.append_nil] at alone
    rw [regroup, alone, splitBefore?_append_cons hne hneedle, splitBefore?_append_cons hne hneedle,
      habove]
    cases splitBefore? body needle <;> cases splitBefore? above.flatten needle <;>
      simp [Function.comp_def]

/-- A new line is put between rows. -/
theorem insertLine_rows {above : List Text} (h : ∀ row ∈ above, Terminated row)
    (rest line : Text) :
    insertLine (above.flatten ++ rest) above.length line =
      above.flatten ++ (line ++ ['\n']) ++ rest := by
  rw [insertLine, rows_append h]
  by_cases hrest : rest = []
  · subst hrest
    have last : above.flatten.isEmpty || endsWith '\n' above.flatten := by
      by_cases habove : above = []
      · simp [habove]
      · simp [endsWith, getLast?_flatten h habove]
    simp only [List.append_nil] at last ⊢
    simp [rows, last]
  · have below : rows rest ≠ [] := fun e => hrest (rows_eq_nil_iff.1 e)
    have within : above.length < (above ++ rows rest).length := by
      have := List.length_pos_iff.2 below
      simp; omega
    rw [if_pos within]
    simp [rows_flatten]

/-- A row has its line feed, or it has none at all. -/
theorem terminated_or_notMem {text row : Text} (h : row ∈ text.rows) :
    Terminated row ∨ '\n' ∉ row := by
  induction text using lineInduction with
  | last text hlast =>
    by_cases hne : text = []
    · simp [hne, Text.rows] at h
    · rw [rows_of_notMem hlast hne, List.mem_singleton] at h
      exact Or.inr (h ▸ hlast)
  | line body rest hbody ih =>
    rw [rows_line_append hbody] at h
    rcases List.mem_cons.1 h with rfl | h
    · exact Or.inl ⟨body, hbody, rfl⟩
    · exact ih h

/-- A row without a line feed is the last one. -/
theorem eq_nil_of_rows_eq {text row : Text} {above below : List Text}
    (h : text.rows = above ++ row :: below) (hrow : '\n' ∉ row) : below = [] := by
  by_contra hbelow
  have regroup : text.rows = (above ++ [row]) ++ below := by simp [h]
  obtain ⟨body, -, rfl⟩ := terminated_of_rows_eq regroup hbelow row (by simp)
  simp at hrow

/-- Where a line is put: between rows, or below a last row that gets its line feed before. -/
inductive PutAt (text line : Text) (number : Nat) (new : Text) : Prop
  | between {above below : List Text} : text.rows = above ++ below →
    (∀ row ∈ above, Terminated row) → above.length = min number text.rows.length →
    new = above.flatten ++ ((line ++ ['\n']) ++ below.flatten) → PutAt text line number new
  | below {above : List Text} {row : Text} : text.rows = above ++ [row] → '\n' ∉ row →
    text.rows.length ≤ number → new = text ++ '\n' :: (line ++ ['\n']) → PutAt text line number new

theorem putAt_insertLine (text line : Text) (number : Nat) :
    PutAt text line number (insertLine text number line) := by
  rcases Nat.lt_or_ge number text.rows.length with within | beyond
  · have split : text.rows = text.rows.take number ++ text.rows.drop number := by simp
    have below : text.rows.drop number ≠ [] := by simpa using within
    refine .between split (terminated_of_rows_eq split below) (by simp) ?_
    rw [insertLine, if_pos within]
    simp
  · have number_le : ¬ number < text.rows.length := by omega
    rcases List.eq_nil_or_concat text.rows with none | ⟨above, row, hrows⟩
    · obtain rfl := rows_eq_nil_iff.1 none
      have split : rows [] = [] ++ [] := none
      refine .between split (by simp) (by simp [none]) ?_
      simp [insertLine, none]
    · rw [List.concat_eq_append] at hrows
      have whole : text = above.flatten ++ row := by simpa using flatten_of_rows_eq hrows
      have rest : ∀ r ∈ above, Terminated r := terminated_of_rows_eq hrows (by simp)
      rcases terminated_or_notMem (show row ∈ text.rows by simp [hrows]) with last | last
      · have split : text.rows = (above ++ [row]) ++ [] := by simpa using hrows
        refine .between split (terminated_concat rest last) (by rw [hrows] at beyond ⊢; omega) ?_
        obtain ⟨body, -, rfl⟩ := last
        have ended : text.endsWith '\n' := by simp [endsWith, whole]
        rw [insertLine, if_neg number_le, if_pos (by simp [ended]), whole]
        simp
      · refine .below hrows last beyond ?_
        have full : text.isEmpty = false := by
          have := ne_nil_of_mem_rows (show row ∈ text.rows by simp [hrows])
          simp [whole, this]
        have bare : text.endsWith '\n' = false := by
          rw [whole, ← Bool.not_eq_true]
          intro ended
          have hne : row ≠ [] := ne_nil_of_mem_rows (show row ∈ text.rows by simp [hrows])
          have hlast : row.getLast? = some '\n' := by
            simpa [endsWith, List.getLast?_append, hne] using ended
          exact last (List.mem_of_getLast? hlast)
        rw [insertLine, if_neg number_le, if_neg (by simp [full, bare])]
        simp

/-- White space at the end of a line includes its line break. -/
theorem trimEnd_line (row : Text) : (line row).trimEnd = row.trimEnd := by
  suffices h : ∃ ending, row = line row ++ ending ∧ ∀ c ∈ ending, isBlank c by
    obtain ⟨ending, hrow, hending⟩ := h
    conv => rhs; rw [hrow]
    exact (trimEnd_append_blank _ hending).symm
  fun_induction line row with
  | case1 => exact ⟨[], by simp⟩
  | case2 => exact ⟨['\n'], by simp [isBlank_lineFeed]⟩
  | case3 => exact ⟨['\r', '\n'], by simp [isBlank_lineFeed, isBlank_carriageReturn]⟩
  | case4 c rest _ _ ih =>
    obtain ⟨ending, hrest, hending⟩ := ih
    exact ⟨ending, by rw [List.cons_append, ← hrest], hending⟩

end ComponentForge.Text

import ComponentForge.Proofs.Path
import ComponentForge.Proofs.Text.Rows
import ComponentForge.Template.Indent

/-!
# Import specifiers

What a source text says in quotes, and where a relative specifier among that leads. A quotation ends
on its line, so that the quotations of a text are those of its rows, in their order. Indentation is
never part of one.
-/

namespace ComponentForge

namespace Specifier

open Text

/-- The texts in single quotes. `reading` is what has been read of a quotation that is open. -/
def quotationsFrom : (reading : Option Text) → Text → List Text
  | _, [] => []
  | none, c :: rest => quotationsFrom (if c = '\'' then some [] else none) rest
  | some body, c :: rest =>
    if c = '\'' then body :: quotationsFrom none rest
    else quotationsFrom (if c = '\n' then none else some (body ++ [c])) rest

def quotations (text : Text) : List Text :=
  quotationsFrom none text

/-- The specifier leads from the directory of its file. -/
def isRelative (quotation : Text) : Bool :=
  "./".toList.isPrefixOf quotation || "../".toList.isPrefixOf quotation

/-- The relative specifiers of a source text. -/
def relatives (text : Text) : List Text :=
  (quotations text).filter isRelative

variable {text body rest ending : Text}

theorem quotationsFrom_of_notMem (h : '\'' ∉ text) (reading : Option Text) :
    quotationsFrom reading text = [] := by
  induction text generalizing reading with
  | nil => cases reading <;> rfl
  | cons c text ih =>
    obtain ⟨hc, htext⟩ := List.ne_and_not_mem_of_not_mem_cons h
    cases reading <;> simp [quotationsFrom, hc.symm, ih htext]

/-- A quotation that is still open at the end of a text is none, whatever comes before its quote. -/
theorem quotationsFrom_append_of_notMem (h : '\'' ∉ ending) (reading : Option Text) (text : Text) :
    quotationsFrom reading (text ++ ending) = quotationsFrom reading text := by
  induction text generalizing reading with
  | nil =>
    rw [List.nil_append, quotationsFrom_of_notMem h]
    cases reading <;> rfl
  | cons c text ih => cases reading <;> simp [quotationsFrom, ih]

/-- What has neither quotes nor line feeds is read as a whole. -/
theorem quotationsFrom_put (quote : '\'' ∉ text) (feed : '\n' ∉ text) (rest : Text) :
    quotationsFrom none (text ++ rest) = quotationsFrom none rest ∧
      ∀ body, quotationsFrom (some body) (text ++ rest) = quotationsFrom (some (body ++ text)) rest := by
  induction text with
  | nil => simp
  | cons c text ih =>
    obtain ⟨not_quote, quote⟩ := List.ne_and_not_mem_of_not_mem_cons quote
    obtain ⟨not_feed, feed⟩ := List.ne_and_not_mem_of_not_mem_cons feed
    obtain ⟨outside, inside⟩ := ih quote feed
    refine ⟨?_, fun body => ?_⟩
    · simpa [quotationsFrom, not_quote.symm] using outside
    · simpa [quotationsFrom, not_quote.symm, not_feed.symm] using inside (body ++ [c])

/-- A line with one quotation. -/
theorem quotations_quote {before after : Text} (hbefore : '\'' ∉ before) (oneLine : '\n' ∉ before)
    (quote : '\'' ∉ text) (feed : '\n' ∉ text) (hafter : '\'' ∉ after) :
    quotations (before ++ '\'' :: (text ++ '\'' :: after)) = [text] := by
  have opened : quotations (before ++ '\'' :: (text ++ '\'' :: after)) =
      quotationsFrom (some []) (text ++ '\'' :: after) :=
    (quotationsFrom_put hbefore oneLine _).1
  rw [opened, (quotationsFrom_put quote feed _).2, List.nil_append]
  simp [quotationsFrom, quotationsFrom_of_notMem hafter]

theorem quotationsFrom_line (reading : Option Text) (body rest : Text) :
    quotationsFrom reading (body ++ '\n' :: rest) =
      quotationsFrom reading body ++ quotations rest := by
  induction body generalizing reading with
  | nil => cases reading <;> simp [quotationsFrom, quotations]
  | cons c body ih =>
    cases reading with
    | none => simp [quotationsFrom, ih]
    | some read => by_cases hc : c = '\'' <;> simp [quotationsFrom, ih, hc]

theorem relatives_line (body rest : Text) :
    relatives (body ++ '\n' :: rest) = relatives body ++ relatives rest := by
  rw [relatives, quotations, quotationsFrom_line, List.filter_append]
  rfl

theorem relatives_of_notMem (h : '\'' ∉ text) : relatives text = [] := by
  rw [relatives, quotations, quotationsFrom_of_notMem h]
  rfl

theorem relatives_append_of_notMem (h : '\'' ∉ ending) (text : Text) :
    relatives (text ++ ending) = relatives text := by
  rw [relatives, quotations, quotationsFrom_append_of_notMem h]
  rfl

theorem relatives_terminated {row : Text} (h : Terminated row) (rest : Text) :
    relatives (row ++ rest) = relatives row ++ relatives rest := by
  obtain ⟨body, -, rfl⟩ := h
  have whole := relatives_line body rest
  have single := relatives_line body []
  rw [List.append_assoc, List.singleton_append, whole, single, List.append_assoc]
  rfl

theorem relatives_flatten {above : List Text} (h : ∀ row ∈ above, Terminated row) (rest : Text) :
    relatives (above.flatten ++ rest) = above.flatMap relatives ++ relatives rest := by
  induction above with
  | nil => rfl
  | cons row above ih =>
    rw [List.flatten_cons, List.append_assoc, relatives_terminated (h row List.mem_cons_self),
      ih fun other mem => h other (List.mem_cons_of_mem row mem), List.flatMap_cons, List.append_assoc]

/-- Indentation is outside quotations, and a new one leaves what is quoted as it is. -/
theorem quotationsFrom_reindent (width : Nat) (text : Text) :
    (∀ spaces, quotationsFrom none (Template.reindentFrom width spaces text) =
      quotationsFrom none text) ∧
    ∀ body, quotationsFrom (some body) (Template.reindentFrom width none text) =
      quotationsFrom (some body) text := by
  have spaces_only : ∀ n, '\'' ∉ Template.indentation width n := by
    intro n quote
    have space := List.eq_of_mem_replicate quote
    simp at space
  have indented : ∀ n rest, quotationsFrom none (Template.indentation width n ++ rest) =
      quotationsFrom none rest := by
    intro n rest
    rw [Template.indentation]
    generalize n / Template.spacesPerLevel * width = count
    induction count with
    | zero => rfl
    | succ count ih => simpa [List.replicate_succ, quotationsFrom] using ih
  induction text with
  | nil =>
    refine ⟨fun spaces => ?_, fun body => rfl⟩
    cases spaces with
    | none => rfl
    | some n =>
      rw [Template.reindentFrom, quotationsFrom_of_notMem (spaces_only n)]
      rfl
  | cons c rest ih =>
    obtain ⟨outside, inside⟩ := ih
    have next : quotationsFrom none (c :: Template.reindentFrom width
        (if c = '\n' then some 0 else none) rest) = quotationsFrom none (c :: rest) := by
      by_cases quote : c = '\''
      · subst quote
        simpa [quotationsFrom] using inside []
      · simpa [quotationsFrom, quote] using outside _
    refine ⟨fun spaces => ?_, fun body => ?_⟩
    · cases spaces with
      | none => exact next
      | some n =>
        rw [Template.reindentFrom]
        by_cases space : c = ' '
        · subst space
          simpa [quotationsFrom] using outside _
        · simp only [space, if_false]
          rw [indented, next]
    · rw [Template.reindentFrom]
      by_cases quote : c = '\''
      · subst quote
        simpa [quotationsFrom] using outside none
      · by_cases feed : c = '\n'
        · subst feed
          simpa [quotationsFrom] using outside _
        · simpa [quotationsFrom, quote, feed] using inside _

theorem relatives_reindent (width : Nat) (text : Text) :
    relatives (Template.reindent width text) = relatives text := by
  rw [relatives, quotations, Template.reindent, (quotationsFrom_reindent width text).1 none]
  rfl

end Specifier

end ComponentForge

import ComponentForge.Proofs.Template.Filling
import ComponentForge.Proofs.Text.Split

/-!
# Templates taken apart

A text is in one way only a sequence of placeholders with ordinary text around them. It is rendered
part by part: each placeholder is replaced by the value of its variable, and values are not read for
placeholders again. Delimiters do not overlap, neither with one another nor with themselves, so no
placeholder arises across the end of a part.
-/

namespace ComponentForge.Template

open Text

theorem solid_opening : Solid opening := by decide

theorem solid_closing : Solid closing := by decide

section Scan

variable {text body rest : Text}

/-- A placeholder begins here if a closing delimiter comes after an opening one, and the first of
them ends it. -/
theorem bodyHere?_eq_some_iff : bodyHere? text = some body ↔
    ∃ rest, text = opening ++ (body ++ (closing ++ rest)) ∧ ¬ closing <:+: body := by
  simp only [bodyHere?, Option.bind_eq_bind, Option.bind_eq_some_iff, after?_eq_some_iff]
  constructor
  · rintro ⟨inside, rfl, ⟨found, rest⟩, cut, same⟩
    obtain rfl : found = body := Option.some.inj same
    obtain ⟨rfl, unclosed⟩ := (solid_closing.cut?_eq_some_iff (by decide)).1 cut
    exact ⟨rest, rfl, unclosed⟩
  · rintro ⟨rest, rfl, unclosed⟩
    exact ⟨_, rfl, (body, rest), solid_closing.cut? unclosed rest, rfl⟩

theorem bodyHere?_eq_none_iff :
    bodyHere? text = none ↔ ∀ body, ¬ opening ++ (body ++ closing) <+: text := by
  constructor
  · rintro absent body ⟨rest, rfl⟩
    rw [List.append_assoc, List.append_assoc] at absent
    have lead : after? (opening ++ (body ++ (closing ++ rest))) opening =
        some (body ++ (closing ++ rest)) := after?_eq_some_iff.2 rfl
    cases cut : (body ++ (closing ++ rest)).cut? closing with
    | none => exact cut?_eq_none_iff.1 cut ⟨body, rest, by simp⟩
    | some found => simp [bodyHere?, lead, cut] at absent
  · intro absent
    cases here : bodyHere? text with
    | none => rfl
    | some body =>
      obtain ⟨rest, rfl, -⟩ := bodyHere?_eq_some_iff.1 here
      exact absurd ⟨rest, by simp⟩ (absent body)

theorem piecesFrom_covered (covered rest : Text) :
    piecesFrom covered.length (covered ++ rest) = pieces rest := by
  induction covered with
  | nil => rfl
  | cons c covered ih => exact ih

theorem pieces_cons_of_none {c : Char} (h : bodyHere? (c :: rest) = none) :
    pieces (c :: rest) = .char c :: pieces rest := by
  rw [pieces, piecesFrom, h]
  rfl

theorem pieces_placeholder (unclosed : ¬ closing <:+: body) (rest : Text) :
    pieces (opening ++ (body ++ (closing ++ rest))) = .placeholder body :: pieces rest := by
  have here : bodyHere? (opening ++ (body ++ (closing ++ rest))) = some body :=
    bodyHere?_eq_some_iff.2 ⟨rest, rfl, unclosed⟩
  have lead : opening = '<' :: "%=".toList := rfl
  have covered : holeLength body - 1 = ("%=".toList ++ (body ++ closing)).length := by
    simp [holeLength, lead]
    omega
  have after := piecesFrom_covered ("%=".toList ++ (body ++ closing)) rest
  rw [lead, List.cons_append] at here ⊢
  rw [pieces, piecesFrom, here]
  dsimp only
  rw [covered, ← after, List.append_assoc, List.append_assoc]

/-- Ordinary text before an opening delimiter is read character by character. -/
theorem pieces_before {before : Text} (unopened : ¬ opening <:+: before) (rest : Text) :
    pieces (before ++ (opening ++ rest)) = literal before ++ pieces (opening ++ rest) := by
  induction before with
  | nil => rfl
  | cons c before ih =>
    have further := ih fun inside => unopened (List.infix_cons inside)
    have none_here : bodyHere? (c :: (before ++ (opening ++ rest))) = none := by
      refine bodyHere?_eq_none_iff.2 fun body here => unopened ?_
      have lead := (List.prefix_append opening (body ++ closing)).trans here
      exact (solid_opening.prefix_of_prefix (List.cons_ne_nil c before) lead).isInfix
    rw [List.cons_append, pieces_cons_of_none none_here, further]
    rfl

/-- So is text in which no opening delimiter has a closing one after it. -/
theorem pieces_last (complete : ∀ body, ¬ opening ++ (body ++ closing) <:+: text) :
    pieces text = literal text := by
  induction text with
  | nil => rfl
  | cons c text ih =>
    have further := ih fun body inside => complete body (List.infix_cons inside)
    have none_here : bodyHere? (c :: text) = none :=
      bodyHere?_eq_none_iff.2 fun body here => complete body here.isInfix
    rw [pieces_cons_of_none none_here, further]
    rfl

end Scan

/-- A placeholder with the ordinary text before it. No placeholder opens before it, and it ends where
it can. -/
structure Hole where
  before : Text
  body : Text
  unopened : ¬ opening <:+: before
  unclosed : ¬ closing <:+: body

/-- A template taken apart: its placeholders, each with the ordinary text before it, and the ordinary
text after the last of them, in which no placeholder is complete. -/
structure Parts where
  holes : List Hole
  last : Text
  incomplete : ∀ body, ¬ opening ++ (body ++ closing) <:+: last

namespace Hole

def text (hole : Hole) : Text :=
  hole.before ++ (opening ++ (hole.body ++ closing))

/-- The variable that is put in for the placeholder. -/
def name (hole : Hole) : Text :=
  hole.body.trim

def pieces (hole : Hole) : List Piece :=
  literal hole.before ++ [.placeholder hole.body]

theorem pieces_append (hole : Hole) (rest : Text) :
    Template.pieces (hole.text ++ rest) = hole.pieces ++ Template.pieces rest := by
  have regroup : hole.text ++ rest =
      hole.before ++ (opening ++ (hole.body ++ (closing ++ rest))) := by simp [text]
  rw [regroup, pieces_before hole.unopened, pieces_placeholder hole.unclosed, pieces]
  simp

end Hole

/-- Where ordinary text ends at a placeholder can be told from the pieces. -/
theorem literal_append_inj {a b : Text} {body body' : Text} {more more' : List Piece}
    (h : literal a ++ .placeholder body :: more = literal b ++ .placeholder body' :: more') :
    a = b ∧ body = body' ∧ more = more' := by
  induction a generalizing b with
  | nil =>
    cases b with
    | nil => simpa [literal] using h
    | cons d b => simp [literal] at h
  | cons c a ih =>
    cases b with
    | nil => simp [literal] at h
    | cons d b =>
      obtain ⟨head, tail⟩ := List.cons.inj h
      obtain ⟨rfl, rest⟩ := ih tail
      exact ⟨by rw [Piece.char.inj head], rest⟩

namespace Parts

def text (parts : Parts) : Text :=
  parts.holes.flatMap Hole.text ++ parts.last

def pieces (parts : Parts) : List Piece :=
  parts.holes.flatMap Hole.pieces ++ literal parts.last

/-- The parts with the values of the variables in the place of the placeholders. -/
def filled (vars : Variables) (parts : Parts) : Text :=
  (parts.holes.flatMap fun hole => hole.before ++ (vars.value? hole.name).getD []) ++ parts.last

/-- The pieces of a template are those of its parts. -/
theorem pieces_text (parts : Parts) : Template.pieces parts.text = parts.pieces := by
  rw [text, pieces]
  induction parts.holes with
  | nil => exact pieces_last parts.incomplete
  | cons hole holes ih =>
    rw [List.flatMap_cons, List.append_assoc, hole.pieces_append, ih, List.flatMap_cons,
      List.append_assoc]

theorem pieces_injective {parts other : Parts} (h : parts.pieces = other.pieces) : parts = other := by
  obtain ⟨holes, last, incomplete⟩ := parts
  obtain ⟨holes', last', incomplete'⟩ := other
  suffices same : holes = holes' ∧ last = last' by
    obtain ⟨rfl, rfl⟩ := same
    rfl
  simp only [pieces] at h
  clear incomplete incomplete'
  induction holes generalizing holes' with
  | nil =>
    cases holes' with
    | nil => exact ⟨rfl, List.map_injective_iff.2 (fun _ _ => Piece.char.inj) h⟩
    | cons hole holes' =>
      have inside : .placeholder hole.body ∈ literal last := by
        rw [List.flatMap_nil, List.nil_append] at h
        simp [h, Hole.pieces]
      simp [literal] at inside
  | cons hole holes ih =>
    cases holes' with
    | nil =>
      have inside : .placeholder hole.body ∈ literal last' := by
        rw [List.flatMap_nil, List.nil_append] at h
        simp [← h, Hole.pieces]
      simp [literal] at inside
    | cons hole' holes' =>
      simp only [List.flatMap_cons, Hole.pieces, List.append_assoc, List.singleton_append] at h
      obtain ⟨same_before, same_body, rest⟩ := literal_append_inj h
      obtain ⟨rfl, rfl⟩ := ih holes' rest
      obtain ⟨before, body, _, _⟩ := hole
      obtain ⟨before', body', _, _⟩ := hole'
      obtain rfl : before = before' := same_before
      obtain rfl : body = body' := same_body
      exact ⟨rfl, rfl⟩

/-- A text has no two ways to be taken apart. -/
theorem text_injective {parts other : Parts} (h : parts.text = other.text) : parts = other := by
  apply pieces_injective
  rw [← pieces_text, h, pieces_text]

/-- One character more in front of the parts of a text, at which no placeholder begins. -/
theorem exists_cons {c : Char} (parts : Parts) (h : bodyHere? (c :: parts.text) = none) :
    ∃ longer : Parts, longer.text = c :: parts.text := by
  have none_here := bodyHere?_eq_none_iff.1 h
  obtain ⟨holes, last, incomplete⟩ := parts
  cases holes with
  | nil =>
    refine ⟨⟨[], c :: last, fun body inside => ?_⟩, rfl⟩
    rcases List.infix_cons_iff.1 inside with here | below
    · exact none_here body here
    · exact incomplete body below
  | cons hole holes =>
    refine ⟨⟨⟨c :: hole.before, hole.body, fun inside => ?_, hole.unclosed⟩ :: holes, last,
      incomplete⟩, rfl⟩
    rcases List.infix_cons_iff.1 inside with ⟨after, here⟩ | below
    · have whole : c :: text ⟨hole :: holes, last, incomplete⟩ = c :: hole.before ++
          (opening ++ (hole.body ++ closing) ++ (holes.flatMap Hole.text ++ last)) := by
        simp [text, Hole.text]
      apply none_here (after ++ (opening ++ hole.body))
      refine ⟨holes.flatMap Hole.text ++ last, ?_⟩
      rw [whole, ← here]
      simp
    · exact hole.unopened below

/-- Every text can be taken apart. -/
theorem exists_text (text : Text) : ∃ parts : Parts, parts.text = text := by
  induction size : text.length using Nat.strongRecOn generalizing text with
  | _ n ih =>
    subst size
    cases text with
    | nil => exact ⟨⟨[], [], by simp [opening]⟩, rfl⟩
    | cons c rest =>
      cases here : bodyHere? (c :: rest) with
      | none =>
        obtain ⟨parts, rfl⟩ := ih rest.length (by simp) rest rfl
        exact parts.exists_cons here
      | some body =>
        obtain ⟨more, whole, unclosed⟩ := bodyHere?_eq_some_iff.1 here
        have shorter : more.length < (c :: rest).length := by
          rw [whole]
          simp [opening, closing]
          omega
        obtain ⟨parts, rfl⟩ := ih more.length shorter more rfl
        refine ⟨⟨⟨[], body, by simp [opening], unclosed⟩ :: parts.holes, parts.last,
          parts.incomplete⟩, ?_⟩
        simp [whole, text, Hole.text]

variable {vars : Variables}

theorem known_flatMap_iff {holes : List Hole} : Known vars (holes.flatMap Hole.pieces) ↔
    ∀ hole ∈ holes, (vars.value? hole.name).isSome := by
  constructor
  · intro known hole mem
    refine known hole.body (List.mem_flatMap.2 ⟨hole, mem, ?_⟩)
    simp [Hole.pieces]
  · intro named body inside
    obtain ⟨hole, mem, inside⟩ := List.mem_flatMap.1 inside
    obtain rfl : body = hole.body := by simpa [Hole.pieces, literal] using inside
    exact named hole mem

theorem put_pieces (vars : Variables) (parts : Parts) :
    put vars parts.pieces = parts.filled vars := by
  rw [pieces, put_append, put_literal, filled]
  congr 1
  induction parts.holes with
  | nil => rfl
  | cons hole holes ih =>
    rw [List.flatMap_cons, put_append, ih, Hole.pieces, put_append, put_literal, List.flatMap_cons]
    simp [put, Piece.value, Hole.name]

/-- With a value for every placeholder the template is rendered. -/
theorem render_of_named (parts : Parts)
    (named : ∀ hole ∈ parts.holes, (vars.value? hole.name).isSome) :
    render parts.text vars = .ok (parts.filled vars) := by
  have known : Known vars (Template.pieces parts.text) := by
    rw [pieces_text, pieces]
    exact (known_flatMap_iff.2 named).append (known_literal _ _)
  rw [render_of_known known, pieces_text, put_pieces]

/-- The first placeholder without a value is reported. -/
theorem render_of_unnamed {parts : Parts} {before after : List Hole} {hole : Hole}
    (whole : parts.holes = before ++ hole :: after)
    (named : ∀ known ∈ before, (vars.value? known.name).isSome)
    (unnamed : vars.value? hole.name = none) :
    render parts.text vars = .error hole.name := by
  have known := (known_flatMap_iff.2 named).append (known_literal _ hole.before)
  have split : Template.pieces parts.text = before.flatMap Hole.pieces ++ literal hole.before ++
      .placeholder hole.body :: (after.flatMap Hole.pieces ++ literal parts.last) := by
    rw [pieces_text, pieces, whole]
    simp [Hole.pieces]
  exact render_of_unknown split known unnamed

end Parts

/-- A text can be taken apart in exactly one way, and it is rendered by its parts. If every placeholder
names a variable, the result is the text with the values in the place of the placeholders, and no
value is read again; otherwise the first placeholder that names none is reported. -/
theorem render_by_parts (text : Text) : ∃ parts : Parts, parts.text = text ∧
    (∀ other : Parts, other.text = text → other = parts) ∧
    ∀ vars : Variables,
      ((∃ out, render text vars = .ok out) ↔
        ∀ hole ∈ parts.holes, (vars.value? hole.name).isSome) ∧
      (∀ out, render text vars = .ok out → out = parts.filled vars) ∧
      (∀ name, render text vars = .error name ↔
        ∃ before hole after, parts.holes = before ++ hole :: after ∧
          (∀ known ∈ before, (vars.value? known.name).isSome) ∧
          vars.value? hole.name = none ∧ name = hole.name) := by
  obtain ⟨parts, rfl⟩ := Parts.exists_text text
  refine ⟨parts, rfl, fun other same => Parts.text_injective same, fun vars => ?_⟩
  cases found : parts.holes.find? fun hole => (vars.value? hole.name).isNone with
  | none =>
    have named : ∀ hole ∈ parts.holes, (vars.value? hole.name).isSome := by
      simpa [Option.isSome_iff_ne_none] using found
    have rendered := parts.render_of_named named
    refine ⟨iff_of_true ⟨_, rendered⟩ named, fun out h => ?_, fun name => iff_of_false ?_ ?_⟩
    · exact Except.ok.inj (h.symm.trans rendered)
    · simp [rendered]
    · rintro ⟨before, hole, after, whole, -, unnamed, -⟩
      have some := named hole (by simp [whole])
      simp [unnamed] at some
  | some hole =>
    obtain ⟨missing, before, after, whole, earlier⟩ := List.find?_eq_some_iff_append.1 found
    have unnamed : vars.value? hole.name = none := by simpa using missing
    have failed := Parts.render_of_unnamed whole (by simpa using earlier) unnamed
    refine ⟨iff_of_false ?_ ?_, fun out h => ?_, fun name => ⟨fun h => ?_, ?_⟩⟩
    · simp [failed]
    · intro named
      have some := named hole (by simp [whole])
      simp [unnamed] at some
    · simp [failed] at h
    · obtain rfl := Except.error.inj (h.symm.trans failed)
      exact ⟨before, hole, after, whole, by simpa using earlier, unnamed, rfl⟩
    · rintro ⟨before, hole, after, whole, named, unnamed, rfl⟩
      exact Parts.render_of_unnamed whole named unnamed

/-- Delimiters in a value, and those that a value completes, are ordinary text. -/
example : render "<<%=a%>%= a %><%=".toList [("a".toList, "<%= a %>".toList)] =
    .ok "<<%= a %>%= a %><%=".toList := by decide

end ComponentForge.Template

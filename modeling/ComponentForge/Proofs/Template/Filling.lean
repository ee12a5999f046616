import ComponentForge.Template.Basic
import Mathlib.Data.List.Basic

/-!
# Filling in a template

If every variable of a template is known, rendering puts the values in; otherwise it reports the first
placeholder whose variable is not.
-/

namespace ComponentForge.Template

/-- The text of a piece whose variable is known. -/
def Piece.value (vars : Variables) : Piece → Text
  | char c => [c]
  | placeholder body => (vars.value? body.trim).getD []

/-- The pieces with the values put in. -/
def put (vars : Variables) (pieces : List Piece) : Text :=
  pieces.flatMap (·.value vars)

/-- Every variable of the template is known. -/
def Known (vars : Variables) (pieces : List Piece) : Prop :=
  ∀ body, .placeholder body ∈ pieces → (vars.value? body.trim).isSome

/-- Ordinary text. -/
def literal (text : Text) : List Piece :=
  text.map .char

variable {vars : Variables} {ps more before after : List Piece} {text body : Text}

theorem put_literal (vars : Variables) (text : Text) : put vars (literal text) = text := by
  induction text with
  | nil => rfl
  | cons c text ih => exact congrArg (c :: ·) ih

theorem put_append (vars : Variables) (ps more : List Piece) :
    put vars (ps ++ more) = put vars ps ++ put vars more :=
  List.flatMap_append

theorem known_literal (vars : Variables) (text : Text) : Known vars (literal text) := by
  intro body inside
  simp [literal] at inside

theorem Known.append (h : Known vars ps) (h' : Known vars more) : Known vars (ps ++ more) :=
  fun body inside => (List.mem_append.1 inside).elim (h body) (h' body)

theorem mapM_fill_of_known (known : Known vars ps) :
    ps.mapM (·.fill vars) = (.ok (ps.map (·.value vars)) : Except Text (List Text)) := by
  induction ps with
  | nil => rfl
  | cons piece more ih =>
    have rest := ih fun body mem => known body (List.mem_cons_of_mem piece mem)
    have first : piece.fill vars = .ok (piece.value vars) := by
      cases piece with
      | char c => rfl
      | placeholder body =>
        obtain ⟨value, found⟩ := Option.isSome_iff_exists.1 (known body List.mem_cons_self)
        simp [Piece.fill, Piece.value, found]
    rw [List.mapM_cons, first, rest]
    rfl

theorem render_of_known (known : Known vars (pieces text)) :
    render text vars = .ok (put vars (pieces text)) := by
  rw [render, mapM_fill_of_known known]
  simp [put, bind, Except.bind, pure, Except.pure, List.flatMap_def]

/-- The first placeholder whose variable is unknown is reported. -/
theorem render_of_unknown (whole : pieces text = before ++ .placeholder body :: after)
    (known : Known vars before) (unknown : vars.value? body.trim = none) :
    render text vars = .error body.trim := by
  have missing : Piece.fill vars (.placeholder body) = .error body.trim := by
    simp [Piece.fill, unknown]
  rw [render, whole, List.mapM_append, mapM_fill_of_known known, List.mapM_cons, missing]
  rfl

end ComponentForge.Template

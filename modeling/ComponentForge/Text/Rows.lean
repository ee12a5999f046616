import ComponentForge.Text.Basic

/-!
# Rows

A text is the concatenation of its rows. A row ends with its line feed; only the last may lack one,
and no row is empty. A line is a row without its line feed and without one carriage return before
that line feed.
-/

namespace ComponentForge.Text

def rows : Text → List Text
  | [] => []
  | c :: rest =>
    if c = '\n' then [c] :: rows rest
    else match rows rest with
      | [] => [[c]]
      | row :: more => (c :: row) :: more

/-- A row without its line break. -/
def line : Text → Text
  | [] => []
  | ['\n'] => []
  | ['\r', '\n'] => []
  | c :: rest => c :: line rest

def lines (text : Text) : List Text :=
  text.rows.map line

/-- A row's content and its line break, all trailing line feeds and carriage returns. -/
def splitBreak (row : Text) : Text × Text :=
  splitEnd (fun c => c == '\n' || c == '\r') row

/-- Put `line` in front of the row of that number, counted from zero, or at the end if there are
fewer rows. A last row without a line feed gets one before anything is put after it. -/
def insertLine (text : Text) (number : Nat) (line : Text) : Text :=
  if number < text.rows.length then
    ((text.rows.take number) ++ (line ++ ['\n']) :: text.rows.drop number).flatten
  else if text.isEmpty || text.endsWith '\n' then text ++ line ++ ['\n']
  else text ++ ['\n'] ++ line ++ ['\n']

theorem rows_flatten (text : Text) : text.rows.flatten = text := by
  induction text with
  | nil => rfl
  | cons c rest ih =>
    simp only [rows]
    split
    · simp [ih]
    · split <;> simp_all

theorem ne_nil_of_mem_rows {text row : Text} (h : row ∈ text.rows) : row ≠ [] := by
  induction text generalizing row with
  | nil => simp [rows] at h
  | cons c rest ih =>
    simp only [rows] at h
    split at h
    · rcases List.mem_cons.1 h with rfl | h
      · simp
      · exact ih h
    · split at h
      · simp_all
      · rename_i row' more heq
        rcases List.mem_cons.1 h with rfl | h
        · simp
        · exact ih (heq ▸ List.mem_cons_of_mem _ h)

end ComponentForge.Text

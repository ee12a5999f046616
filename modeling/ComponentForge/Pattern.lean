import ComponentForge.Position

/-!
# Patterns

What an edit searches for: a literal text, or a line that lists an identifier. Such a line holds
the identifier between spaces and tabs, with at most one comma after it, and may end in a carriage
return. A search yields the text before the match and the text from the match on.

The pattern of a line is a regular expression around the escaped identifier. It is taken to compile for
every identifier: after escaping, only the limit on the size of an expression is left to refuse one.
-/

namespace ComponentForge

inductive Pattern where
  | literal (text : Text)
  /-- Each character of the identifier stands for itself. -/
  | entry (identifier : Text)
deriving DecidableEq, Repr

namespace Pattern

def isSpaceOrTab (c : Char) : Bool :=
  c == ' ' || c == '\t'

/-- The text without `c` at its start. -/
def skip (c : Char) : Text → Text
  | [] => []
  | d :: rest => if d = c then rest else d :: rest

def atLineEnd : Text → Bool
  | [] => true
  | c :: _ => c == '\n'

/-- What follows an identifier lets the line be an entry. -/
def closesEntry (rest : Text) : Bool :=
  atLineEnd (skip '\r' ((skip ',' rest).dropWhile isSpaceOrTab))

/-- A line that starts here is an entry. The identifier may itself start with spaces, so every
split of the leading spaces and tabs counts. -/
def opensEntry (identifier : Text) (text : Text) : Bool :=
  ((text.after? identifier).map closesEntry).getD false ||
    match text with
    | [] => false
    | c :: rest => isSpaceOrTab c && opensEntry identifier rest

/-- Split before the first entry line; `lineStart` tells whether a line starts here. -/
def splitListing? (identifier : Text) (lineStart : Bool) : Text → Option (Text × Text)
  | [] => if lineStart && opensEntry identifier [] then some ([], []) else none
  | c :: rest =>
    if lineStart && opensEntry identifier (c :: rest) then some ([], c :: rest)
    else (splitListing? identifier (c == '\n') rest).map fun (before, after) => (c :: before, after)

/-- Split before the first match. -/
def split? : Pattern → Text → Option (Text × Text)
  | literal needle, text => text.splitBefore? needle
  | entry identifier, text => splitListing? identifier true text

/-- Position of the first match. -/
def position? (pattern : Pattern) (text : Text) : Option Position :=
  (pattern.split? text).map fun (before, _) => .after before

theorem append_of_splitListing? {identifier text before after : Text} {lineStart : Bool}
    (h : splitListing? identifier lineStart text = some (before, after)) :
    before ++ after = text := by
  induction text generalizing before after lineStart with
  | nil =>
    simp only [splitListing?] at h
    split at h <;> simp_all
  | cons c rest ih =>
    simp only [splitListing?] at h
    split at h
    · simp_all
    · obtain ⟨⟨b, a⟩, hb, hab⟩ := Option.map_eq_some_iff.1 h
      obtain ⟨rfl, rfl⟩ := Prod.mk.inj hab
      simp [ih hb]

/-- A match loses nothing of the text. -/
theorem append_of_split? {pattern : Pattern} {text before after : Text}
    (h : pattern.split? text = some (before, after)) : before ++ after = text := by
  cases pattern with
  | literal needle =>
    simp only [split?, Text.splitBefore?] at h
    exact Text.append_of_splitWhere? h
  | entry identifier => exact append_of_splitListing? h

end Pattern

end ComponentForge

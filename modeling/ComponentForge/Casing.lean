import ComponentForge.Letter.Basic
import ComponentForge.Text.Basic

/-!
# Casing

A name is a sequence of words, and a casing is a way to write words. Characters that are neither
letters nor digits separate words. Inside a run of alphanumeric characters a word ends between a
lower-case and an upper-case character, and before the last of several capitals when a lower-case
character follows. Characters without case stay with the word before them.
-/

namespace ComponentForge

inductive Casing where
  /-- Such as `comment_list`. -/
  | snake
  /-- Such as `CommentList`. -/
  | upperCamel
  /-- Such as `commentList`. -/
  | camel
deriving DecidableEq, Repr

namespace Casing

/-- Case of the latest cased character of the current word. -/
inductive Mode where
  | start
  | lower
  | upper
deriving DecidableEq

def Mode.after (mode : Mode) (c : Char) : Mode :=
  if Letter.isLower c then .lower else if Letter.isUpper c then .upper else mode

/-- The words of a run of alphanumeric characters that goes on with the given text after `word`. -/
def wordsFrom (mode : Mode) (word : Text) : Text → List Text
  | [] => if word.isEmpty then [] else [word]
  | [c] => [word ++ [c]]
  | c :: next :: rest =>
    if mode.after c = .lower ∧ Letter.isUpper next then
      (word ++ [c]) :: wordsFrom .start [] (next :: rest)
    else if mode = .upper ∧ Letter.isUpper c ∧ Letter.isLower next then
      word :: wordsFrom .start [c] (next :: rest)
    else wordsFrom (mode.after c) (word ++ [c]) (next :: rest)

def words (name : Text) : List Text :=
  (name.pieces fun c => !Letter.isAlphanumeric c).flatMap (wordsFrom .start [])

/-- A word in lower case. A capital sigma takes its final form at the end of a word. -/
def lowered : Text → Text
  | [] => []
  | ['Σ'] => ['ς']
  | c :: rest => Letter.lower c ++ lowered rest

def capitalized : Text → Text
  | [] => []
  | c :: rest => Letter.upper c ++ lowered rest

def write : Casing → List Text → Text
  | snake, ws => Text.join ['_'] (ws.map lowered)
  | upperCamel, ws => ws.flatMap capitalized
  | camel, [] => []
  | camel, w :: ws => lowered w ++ ws.flatMap capitalized

def apply (casing : Casing) (name : Text) : Text :=
  casing.write (words name)

end Casing

end ComponentForge

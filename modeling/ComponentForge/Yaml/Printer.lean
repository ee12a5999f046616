import ComponentForge.Letter.Basic
import ComponentForge.Yaml.Character
import ComponentForge.Yaml.Outline

/-!
# Printing outlines

A string is printed in the plainest style that reads back as the same string: plain, single quoted,
or double quoted with escapes; a string of several lines is printed as a literal block. Strings that
some reader could take for another kind of scalar are quoted.
-/

namespace ComponentForge.Yaml

/-! ## Styles -/

inductive Style where
  | plain
  | singleQuoted
  | doubleQuoted
  | literal
  | folded
deriving DecidableEq, Repr

/-- A character that satisfies `p` stands right before one that satisfies `q`. -/
def hasPair (p q : Char → Bool) : Text → Bool
  | a :: b :: rest => (p a && q b) || hasPair p q (b :: rest)
  | _ => false

/-- Words that some reader takes for a truth value, for null or for a number. -/
def reservedWords : List Text :=
  ["y", "yes", "n", "no", "on", "off", "true", "false", "null", "nil", "~", "nan"].map String.toList

def isAmbiguous (text : Text) : Bool :=
  let lowered := text.flatMap Letter.lower
  match lowered with
  | [] => true
  | c :: _ => c.isDigit || c == '-' || c == '.' || c == '+' || reservedWords.contains lowered

/-- Characters that have a meaning of their own at the start of a scalar. -/
def isIndicator (c : Char) : Bool :=
  "#,[]\x7b\x7d&*!|>'\"%@`".toList.contains c

/-- An indicator stands where a reader would act on it. -/
def hasIndicator (text : Text) : Bool :=
  (match text with
    | [] => false
    | c :: rest => isIndicator c || ((c == '?' || c == ':' || c == '-') && atWhite rest)) ||
  (text.after? "---".toList).isSome || (text.after? "...".toList).isSome ||
  hasPair (· == ':') isWhite text || text.endsWith ':' || hasPair isWhite (· == '#') text

def allowsPlain (text : Text) : Bool :=
  text.head? != some ' ' && !text.endsWith ' ' && !text.any isBreak && text.all isPrintable &&
    !hasIndicator text

def allowsSingleQuotes (text : Text) : Bool :=
  text.all isPrintable && !hasPair (· == ' ') isBreak text && !hasPair isBreak (· == ' ') text

def allowsLiteral (text : Text) : Bool :=
  text.all isPrintable && !hasPair (· == ' ') isBreak text && !text.endsWith ' '

def styleOf (text : Text) : Style :=
  if text.contains '\n' then if allowsLiteral text then .literal else .doubleQuoted
  else if !isAmbiguous text && allowsPlain text then .plain
  else if allowsSingleQuotes text then .singleQuoted
  else .doubleQuoted

/-! ## Scalars -/

def hexDigit (n : Nat) : Char :=
  "0123456789ABCDEF".toList.getD n '0'

/-- The last `width` hexadecimal digits of a number. -/
def hex : (width : Nat) → Nat → Text
  | 0, _ => []
  | width + 1, n => hex width (n / 16) ++ [hexDigit (n % 16)]

/-- The letter that escapes a character which has one of its own. -/
def escapeLetter? (n : Nat) : Option Char :=
  [ (0x00, '0'), (0x07, 'a'), (0x08, 'b'), (0x09, 't'), (0x0A, 'n'), (0x0B, 'v'), (0x0C, 'f'),
    (0x0D, 'r'), (0x1B, 'e'), (0x22, '"'), (0x5C, '\\'), (0x85, 'N'), (0x2028, 'L'),
    (0x2029, 'P') ].lookup n

def escape (c : Char) : Text :=
  let n := c.toNat
  match escapeLetter? n with
  | some letter => ['\\', letter]
  | none =>
    if n ≤ 0xFF then '\\' :: 'x' :: hex 2 n
    else if n ≤ 0xFFFF then '\\' :: 'u' :: hex 4 n
    else '\\' :: 'U' :: hex 8 n

def doubleQuoted (text : Text) : Text :=
  let inner := text.flatMap fun c =>
    if isPrintable c && !isBreak c && c != '"' && c != '\\' then [c] else escape c
  '"' :: inner ++ ['"']

def spaces (n : Nat) : Text :=
  List.replicate n ' '

/-- The text with an indentation after each run of line breaks; `fresh` tells whether a run of line
breaks has just ended. -/
def indented (indent : Nat) (fresh : Bool) : Text → Text
  | [] => []
  | c :: rest =>
    if isBreak c then c :: indented indent true rest
    else (if fresh then spaces indent else []) ++ c :: indented indent false rest

def singleQuoted (indent : Nat) (text : Text) : Text :=
  let doubled := text.flatMap fun c => if c = '\'' then ['\'', '\''] else [c]
  let tail := match text.getLast? with
    | some c => if isBreak c then spaces indent else []
    | none => []
  '\'' :: indented indent false doubled ++ tail ++ ['\'']

/-- Marks after the bar of a literal block: the indentation, if the reader could not tell it from
the first line, and what becomes of the line breaks at the end. -/
def literalMarks (text : Text) : Text :=
  let indentation := match text with
    | c :: _ => if c == ' ' || isBreak c then ['2'] else []
    | [] => []
  let ending := match text.reverse with
    | [] => ['-']
    | [c] => if isBreak c then ['+'] else ['-']
    | c :: d :: _ => if !isBreak c then ['-'] else if isBreak d then ['+'] else []
  indentation ++ ending

def literal (indent : Nat) (text : Text) : Text :=
  '|' :: literalMarks text ++ '\n' :: indented indent true text

/-- A string whose further lines are indented by `indent`. -/
def printString (indent : Nat) (text : Text) : Text :=
  match styleOf text with
  | .plain => text
  | .singleQuoted => singleQuoted indent text
  | .doubleQuoted => doubleQuoted text
  | _ => literal indent text

def printDatum (indent : Nat) : Datum → Text
  | .bool true => "true".toList
  | .bool false => "false".toList
  | .number n => Nat.toDigits 10 n
  | .string text => printString indent text

/-! ## Outlines -/

/-- A key with its scalar, on a line of its own. -/
def printField (indent : Nat) (key : Text) (datum : Datum) : Text :=
  let line := key ++ ": ".toList ++ printDatum (indent + 2) datum
  match line.getLast? with
  | some c => if isBreak c then line else line ++ ['\n']
  | none => ['\n']

/-- A record of a list: a dash before its first field, all others aligned with the first. -/
def printRecord (record : Record) : Text :=
  match record with
  | [] => "- \x7b\x7d\n".toList
  | (key, datum) :: more =>
    "- ".toList ++ printField 2 key datum ++
      more.flatMap fun (key, datum) => spaces 2 ++ printField 2 key datum

def print (outline : Outline) : Text :=
  outline.flatMap fun (key, field) =>
    match field with
    | .datum datum => printField 0 key datum
    | .records [] => key ++ ": []\n".toList
    | .records records => key ++ ":\n".toList ++ records.flatMap printRecord

end ComponentForge.Yaml

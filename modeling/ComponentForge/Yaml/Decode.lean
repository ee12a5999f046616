import ComponentForge.Yaml.Node

/-!
# Decoding nodes

Nodes as values of a wanted type. The style of a scalar decides with its text: only plain scalars,
and literal blocks that say so by their tag, are numbers or truth values, while every scalar is a
string.
-/

namespace ComponentForge.Yaml

def standardTag (name : String) : Text :=
  "tag:yaml.org,2002:".toList ++ name.toList

def nullWords : List Text :=
  ["null".toList, "Null".toList, "NULL".toList, ['~']]

def trueWords : List Text :=
  ["true".toList, "True".toList, "TRUE".toList]

def falseWords : List Text :=
  ["false".toList, "False".toList, "FALSE".toList]

def bool? (text : Text) : Option Bool :=
  if trueWords.contains text then some true
  else if falseWords.contains text then some false
  else none

/-- Digits below the base, at least one. -/
def digits? (base : Nat) (text : Text) : Option Nat :=
  if text.isEmpty then none
  else text.foldlM (fun n c => do
    let d ← hexValue? c
    if d < base then some (n * base + d) else none) 0

def maxUnsigned : Nat :=
  18446744073709551615

/-- An unsigned number of 64 bits: decimal without leading zeros, or after a mark hexadecimal, octal
or binary. A plus sign may come first. -/
def unsigned? (text : Text) : Option Nat := do
  let body := (text.after? ['+']).getD text
  let n ← match body with
    | '0' :: 'x' :: rest => digits? 16 rest
    | '0' :: 'o' :: rest => digits? 8 rest
    | '0' :: 'b' :: rest => digits? 2 rest
    | '0' :: _ :: _ => none
    | _ => digits? 10 body
  if n ≤ maxUnsigned then some n else none

namespace Document

def string? (d : Document) (node : Node) : Option Text :=
  match d.resolve? node with
  | some (.scalar _ _ text) => some text
  | _ => none

/-- The text of a plain scalar, or of a literal block with the tag of the type. -/
def bare? (d : Document) (type : String) (node : Node) : Option Text :=
  match d.resolve? node with
  | some (.scalar _ .plain text) => some text
  | some (.scalar (some tag) .literal text) => if tag = standardTag type then some text else none
  | _ => none

def nat? (d : Document) (node : Node) : Option Nat :=
  (d.bare? "int" node).bind unsigned?

def bool? (d : Document) (node : Node) : Option Bool :=
  (d.bare? "bool" node).bind Yaml.bool?

/-- The items of a sequence; a plain empty scalar has none. -/
def items? (d : Document) (node : Node) : Option (List Node) :=
  match d.resolve? node with
  | some (.sequence items) => some items
  | some (.scalar _ .plain []) => some []
  | _ => none

/-- The fields of a mapping with the texts of their keys; a plain empty scalar has none. -/
def fields? (d : Document) (node : Node) : Option (List (Text × Node)) :=
  match d.resolve? node with
  | some (.mapping fields) => fields.mapM fun (key, value) => do return (← d.string? key, value)
  | some (.scalar _ .plain []) => some []
  | _ => none

/-- A value that may be absent. Absent is a plain scalar that is empty or a word for null; with the
tag of null only such a word is accepted, and with any other tag the value is never absent. -/
def optional? {α : Type} (d : Document) (decode : Node → Option α) (node : Node) :
    Option (Option α) :=
  match d.resolve? node with
  | none => none
  | some (.scalar none .plain text) =>
    if text.isEmpty || nullWords.contains text then some none else (decode node).map some
  | some (.scalar (some tag) .plain text) =>
    if tag = standardTag "null" then
      if nullWords.contains text then some none else none
    else (decode node).map some
  | some _ => (decode node).map some

end Document

/-- The value of a key that may be missing; fails if the key occurs twice. -/
def field? (fields : List (Text × Node)) (key : String) : Option (Option Node) :=
  match fields.filter (·.1 == key.toList) with
  | [] => some none
  | [(_, node)] => some (some node)
  | _ => none

end ComponentForge.Yaml

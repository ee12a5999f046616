import ComponentForge.Yaml.Scalar.Gap

/-!
# Quoted scalars

Between single quotes only a doubled quote stands for something else. Between double quotes a
backslash starts an escape, and before a line break it joins the lines without a space.
-/

namespace ComponentForge.Yaml.Quoted

/-- Characters that a single letter stands for after a backslash. -/
def escapes : List (Char × Nat) :=
  [ ('0', 0x00), ('a', 0x07), ('b', 0x08), ('t', 0x09), ('\t', 0x09), ('n', 0x0A), ('v', 0x0B),
    ('f', 0x0C), ('r', 0x0D), ('e', 0x1B), (' ', 0x20), ('"', 0x22), ('/', 0x2F), ('\\', 0x5C),
    ('N', 0x85), ('_', 0xA0), ('L', 0x2028), ('P', 0x2029) ]

/-- Number of hexadecimal digits after a letter that stands for a code point. -/
def digitCount? (letter : Char) : Option Nat :=
  [('x', 2), ('u', 4), ('U', 8)].lookup letter

def number? (digits : Text) : Option Nat :=
  digits.foldlM (fun n c => (hexValue? c).map (n * 16 + ·)) 0

/-- The character that an escape stands for and the length of the escape. -/
def escape? : Text → Option (Char × Nat)
  | '\\' :: letter :: rest =>
    match escapes.lookup letter with
    | some n => some (Char.ofNat n, 2)
    | none => do
      let count ← digitCount? letter
      if rest.length < count then none
      let n ← number? (rest.take count)
      if (0xD800 ≤ n && n ≤ 0xDFFF) || 0x10FFFF < n then none
      return (Char.ofNat n, 2 + count)
  | _ => none

/-- A stretch without white space: its text, the gap that an escaped line break opens, and the
place where it ends. -/
def stretch? (single : Bool) : (fuel : Nat) → Text → Cursor → Option (Text × Gap × Cursor)
  | 0, text, c => some (text, .none, c)
  | fuel + 1, text, c =>
    match c.rest with
    | [] => some (text, .none, c)
    | x :: rest =>
      if isWhite x then some (text, .none, c)
      else if single then
        if x == '\'' then
          if rest.head? == some '\'' then stretch? single fuel (text ++ [x]) (c.skip 2)
          else some (text, .none, c)
        else stretch? single fuel (text ++ [x]) (c.skip 1)
      else if x == '"' then some (text, .none, c)
      else if x == '\\' then
        match (c.skip 1).takeBreak? with
        | some (_, c) => some (text, .breaks none [], c)
        | none => do
          let (y, length) ← escape? c.rest
          stretch? single fuel (text ++ [y]) (c.skip length)
      else stretch? single fuel (text ++ [x]) (c.skip 1)

/-- Read on up to the closing quote. -/
def readFrom (single : Bool) : (fuel : Nat) → Text → Cursor → Option (Text × Cursor)
  | 0, _, _ => none
  | fuel + 1, text, c => do
    if c.atDocumentMark then none
    let (text, gap, c) ← stretch? single (c.rest.length + 1) text c
    let x ← c.head?
    if x == (if single then '\'' else '"') then return (text, c.skip 1)
    let (gap, c) ← Gap.read? 0 gap c
    readFrom single fuel (text ++ gap.fold) c

/-- The text between the quote at the cursor and its partner. -/
def read? (single : Bool) (c : Cursor) : Option (Text × Cursor) :=
  readFrom single (c.rest.length + 1) [] (c.skip 1)

end ComponentForge.Yaml.Quoted

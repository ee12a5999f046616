import ComponentForge.Yaml.Scalar.Block
import ComponentForge.Yaml.Scalar.Plain
import ComponentForge.Yaml.Scalar.Quoted
import ComponentForge.Yaml.Tag

/-!
# Token streams

Reading a stream into tokens. Indentation opens and closes block collections. A key need not be
marked as one: a scalar or flow collection on one line turns out to be a key when a colon follows
it, so the places where a key may have started are remembered, and the token for the key is put in
there later.
-/

namespace ComponentForge.Yaml

/-- A place where a key without a mark may have started. -/
structure KeyStart where
  /-- Number of tokens before it. -/
  position : Nat
  index : Nat
  line : Nat
  column : Nat
  /-- Nothing but a key may stand here. -/
  isRequired : Bool

/-- A key without a mark is at most so many characters long. -/
def maxKeyLength : Nat := 1024

structure Stream where
  cursor : Cursor
  /-- The tokens read, the latest first. -/
  tokens : List Token
  /-- One more than the column of the innermost block collection; zero outside of all. -/
  margin : Nat
  /-- The margins of the collections around it. -/
  margins : List Nat
  /-- A key may start here. -/
  keyAllowed : Bool
  /-- The latest start of a key in the innermost flow collection, or outside of all. -/
  keyStart : Option KeyStart
  /-- The same for the flow collections around it, one for each that is open. -/
  keyStarts : List (Option KeyStart)

namespace Stream

def start (text : Text) : Stream :=
  ⟨.start text, [], 0, [], true, none, []⟩

def inFlow (s : Stream) : Bool :=
  !s.keyStarts.isEmpty

def add (s : Stream) (token : Token) : Stream :=
  { s with tokens := token :: s.tokens }

/-- Put a token in after the first `position` tokens. -/
def insert (s : Stream) (position : Nat) (token : Token) : Stream :=
  { s with tokens := s.tokens.insertIdx (s.tokens.length - position) token }

def skip (s : Stream) (n : Nat) : Stream :=
  { s with cursor := s.cursor.skip n }

/-! ## Starts of keys -/

def isStale (c : Cursor) (k : KeyStart) : Bool :=
  k.line < c.line || k.index + maxKeyLength < c.index

/-- Forget a start that can no longer be one of a key; fails if a key had to start there. -/
def dropStale? (c : Cursor) : Option KeyStart → Option (Option KeyStart)
  | none => some none
  | some k => if isStale c k then if k.isRequired then none else some none else some (some k)

def dropStaleKeys? (s : Stream) : Option Stream := do
  let keyStart ← dropStale? s.cursor s.keyStart
  let keyStarts ← s.keyStarts.mapM (dropStale? s.cursor)
  return { s with keyStart, keyStarts }

/-- Forget the latest start; fails if a key had to start there. -/
def dropKey? (s : Stream) : Option Stream :=
  if s.keyStart.any (·.isRequired) then none else some { s with keyStart := none }

/-- Remember that a key may start here. -/
def saveKey? (s : Stream) : Option Stream :=
  if s.keyAllowed then do
    let c := s.cursor
    let s ← s.dropKey?
    let isRequired := !s.inFlow && s.margin == c.column + 1
    return { s with keyStart := some ⟨s.tokens.length, c.index, c.line, c.column, isRequired⟩ }
  else some s

/-! ## Indentation -/

/-- Close the block collections that are indented more than `margin` tells. -/
def closeBlocks (s : Stream) (margin : Nat) : Stream :=
  if s.inFlow then s
  else
    let closed := (s.margin :: s.margins).takeWhile (margin < ·)
    let left := (s.margin :: s.margins).dropWhile (margin < ·)
    { s with
      tokens := List.replicate closed.length .blockEnd ++ s.tokens
      margin := left.headD 0
      margins := left.drop 1 }

/-- Open a block collection at a column, unless one of that column is open. Its token is put in
after the first `position` tokens. -/
def openBlock (s : Stream) (column position : Nat) (token : Token) : Stream :=
  if !s.inFlow && s.margin < column + 1 then
    { s.insert position token with margin := column + 1, margins := s.margin :: s.margins }
  else s

/-! ## White space -/

/-- Pass white space and comments. After a line break a key is allowed outside of flow
collections; where a key is allowed a tab is no white space. -/
def skipWhiteFrom : (fuel : Nat) → Stream → Stream
  | 0, s => s
  | fuel + 1, s =>
    let c := s.cursor
    let c := if c.index = 0 && c.headIs byteOrderMark then c.skip 1 else c
    let c := c.skipWhile fun x => x == ' ' || (x == '\t' && (s.inFlow || !s.keyAllowed))
    let c := if c.headIs '#' then c.skipWhile (!isBreak ·) else c
    match c.takeBreak? with
    | some (_, c) =>
      skipWhiteFrom fuel { s with cursor := c, keyAllowed := s.keyAllowed || !s.inFlow }
    | none => { s with cursor := c }

def skipWhite (s : Stream) : Stream :=
  skipWhiteFrom (s.cursor.rest.length + 1) s

/-! ## Tokens -/

def documentMark? (s : Stream) (token : Token) : Option Stream := do
  let s ← (s.closeBlocks 0).dropKey?
  return { (s.skip 3).add token with keyAllowed := false }

def directiveLine? (s : Stream) : Option Stream := do
  let s ← (s.closeBlocks 0).dropKey?
  let (token, c) ← directive? s.cursor
  return { s.add token with cursor := c, keyAllowed := false }

def openFlow? (s : Stream) (token : Token) : Option Stream := do
  let s ← s.saveKey?
  return { (s.skip 1).add token with
    keyAllowed := true, keyStart := none, keyStarts := s.keyStart :: s.keyStarts }

def closeFlow? (s : Stream) (token : Token) : Option Stream := do
  let s ← s.dropKey?
  let s := match s.keyStarts with
    | [] => s
    | k :: ks => { s with keyStart := k, keyStarts := ks }
  return { (s.skip 1).add token with keyAllowed := false }

def flowEntry? (s : Stream) : Option Stream := do
  let s ← s.dropKey?
  return { (s.skip 1).add .flowEntry with keyAllowed := true }

def blockEntry? (s : Stream) : Option Stream := do
  if !s.inFlow && !s.keyAllowed then none
  let s := s.openBlock s.cursor.column s.tokens.length .blockSequenceStart
  let s ← s.dropKey?
  return { (s.skip 1).add .blockEntry with keyAllowed := true }

def markedKey? (s : Stream) : Option Stream := do
  if !s.inFlow && !s.keyAllowed then none
  let s := s.openBlock s.cursor.column s.tokens.length .blockMappingStart
  let s ← s.dropKey?
  return { (s.skip 1).add .key with keyAllowed := !s.inFlow }

/-- A colon. It makes what started at the latest start of a key the key, if there is one. -/
def value? (s : Stream) : Option Stream :=
  match s.keyStart with
  | some k =>
    let s := s.insert k.position .key
    let s := s.openBlock k.column k.position .blockMappingStart
    some { (s.skip 1).add .value with keyAllowed := false, keyStart := none }
  | none =>
    if !s.inFlow && !s.keyAllowed then none
    else
      let s := s.openBlock s.cursor.column s.tokens.length .blockMappingStart
      some { (s.skip 1).add .value with keyAllowed := !s.inFlow }

def anchor? (s : Stream) (token : Text → Token) : Option Stream := do
  let s ← s.saveKey?
  let (name, c) ← anchorName? s.cursor
  return { s.add (token name) with cursor := c, keyAllowed := false }

def tagMark? (s : Stream) : Option Stream := do
  let s ← s.saveKey?
  let (token, c) ← tag? s.inFlow s.cursor
  return { s.add token with cursor := c, keyAllowed := false }

def blockScalar? (s : Stream) (folded : Bool) : Option Stream := do
  let s ← s.dropKey?
  let (text, c) ← Block.read? folded s.margin s.cursor
  let style := if folded then Style.folded else Style.literal
  return { s.add (.scalar style text) with cursor := c, keyAllowed := true }

def quotedScalar? (s : Stream) (single : Bool) : Option Stream := do
  let s ← s.saveKey?
  let (text, c) ← Quoted.read? single s.cursor
  let style := if single then Style.singleQuoted else Style.doubleQuoted
  return { s.add (.scalar style text) with cursor := c, keyAllowed := false }

def plainScalar? (s : Stream) : Option Stream := do
  let s ← s.saveKey?
  let part ← Plain.read? s.inFlow s.margin s.cursor
  return { s.add (.scalar .plain part.text) with
    cursor := part.cursor, keyAllowed := part.gap.hasBreak }

/-- A plain scalar may start here: no indicator stands here, or one that the character after it
makes part of a word. -/
def startsPlain (flow : Bool) (x : Char) (rest : Text) : Bool :=
  !(isWhite x || isIndicator x || x == '-' || x == '?' || x == ':') ||
    (x == '-' && !rest.head?.any isSpaceOrTab) ||
    (!flow && (x == '?' || x == ':') && !atWhite rest)

/-- Read the token that starts with `x`. -/
def token? (s : Stream) (x : Char) (rest : Text) : Option Stream :=
  let c := s.cursor
  if c.column = 0 && x == '%' then s.directiveLine?
  else if c.column = 0 && atTriple '-' c.rest then s.documentMark? .documentStart
  else if c.column = 0 && atTriple '.' c.rest then s.documentMark? .documentEnd
  else if x == '[' then s.openFlow? .flowSequenceStart
  else if x == '\x7b' then s.openFlow? .flowMappingStart
  else if x == ']' then s.closeFlow? .flowSequenceEnd
  else if x == '\x7d' then s.closeFlow? .flowMappingEnd
  else if x == ',' then s.flowEntry?
  else if x == '-' && atWhite rest then s.blockEntry?
  else if x == '?' && (s.inFlow || atWhite rest) then s.markedKey?
  else if x == ':' && (s.inFlow || atWhite rest) then s.value?
  else if x == '*' then s.anchor? .alias
  else if x == '&' then s.anchor? .anchor
  else if x == '!' then s.tagMark?
  else if x == '|' && !s.inFlow then s.blockScalar? false
  else if x == '>' && !s.inFlow then s.blockScalar? true
  else if x == '\'' then s.quotedScalar? true
  else if x == '"' then s.quotedScalar? false
  else if startsPlain s.inFlow x rest then s.plainScalar?
  else none

/-- Read on to the end of the stream. -/
def readFrom : (fuel : Nat) → Stream → Option (List Token)
  | 0, _ => none
  | fuel + 1, s => do
    let s ← s.skipWhite.dropStaleKeys?
    let s := s.closeBlocks (s.cursor.column + 1)
    match s.cursor.rest with
    | [] =>
      let s ← (s.closeBlocks 0).dropKey?
      return s.tokens.reverse
    | x :: rest => readFrom fuel (← s.token? x rest)

end Stream

/-- The tokens of a stream. A byte order mark at its start does not belong to it. -/
def tokens? (text : Text) : Option (List Token) :=
  if text.all isAllowed then
    let text := if text.head? == some byteOrderMark then text.drop 1 else text
    Stream.readFrom (text.length + 1) (.start text)
  else none

end ComponentForge.Yaml

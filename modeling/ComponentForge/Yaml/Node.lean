import ComponentForge.Yaml.Stream

/-!
# Nodes

The document of a stream as a tree. An anchor gives a node a name, and an alias refers to a node by
such a name. An alias may stand inside the node it refers to, so it is kept as a reference.
-/

namespace ComponentForge.Yaml

inductive Node where
  | scalar (tag : Option Text) (style : Style) (text : Text)
  /-- A reference to the latest anchor of that name among the first `count` anchors. -/
  | alias (name : Text) (count : Nat)
  | sequence (items : List Node)
  | mapping (fields : List (Node × Node))

/-- The scalar that stands where a node is left out. -/
def Node.omitted : Node :=
  .scalar none .plain []

/-- What is read of a document: the tokens to come, the explained tag handles, and the anchors in
the order in which their nodes start. -/
structure Reading where
  tokens : List Token
  handles : List (Text × Text)
  names : List Text
  /-- Nodes by the number of their anchor. -/
  anchored : List (Nat × Node)

abbrev Reader := StateT Reading Option

namespace Reader

def peek : Reader (Option Token) := do
  return (← get).tokens.head?

def skip : Reader Unit :=
  modify fun r => { r with tokens := r.tokens.drop 1 }

def expect (token : Token) : Reader Unit := do
  if (← peek) = some token then skip else failure

/-- The tokens that satisfy `p` come next, or the stream ends. -/
def nextIs (tokens : List Token) : Reader Bool := do
  match ← peek with
  | some token => return tokens.contains token
  | none => return false

/-- An anchor, a tag, or both in either order. -/
def properties : Reader (Option Text × Option (Text × Text)) := do
  match ← peek with
  | some (.anchor name) =>
    skip
    match ← peek with
    | some (.tag handle rest) => skip; return (some name, some (handle, rest))
    | _ => return (some name, none)
  | some (.tag handle rest) =>
    skip
    match ← peek with
    | some (.anchor name) => skip; return (some name, some (handle, rest))
    | _ => return (none, some (handle, rest))
  | _ => return (none, none)

/-- The tag in full. A handle has to be explained; a tag without a handle is complete. -/
def fullTag : Option (Text × Text) → Reader (Option Text)
  | none => return none
  | some ([], rest) => return some rest
  | some (handle, rest) => do
    match (← get).handles.lookup handle with
    | some lead => return some (lead ++ rest)
    | none => failure

/-- Number an anchor before its node is read. -/
def declare : Option Text → Reader (Option Nat)
  | none => return none
  | some name => do
    let number := (← get).names.length
    modify fun r => { r with names := r.names ++ [name] }
    return some number

def complete (number : Option Nat) (node : Node) : Reader Unit :=
  match number with
  | none => pure ()
  | some n => modify fun r => { r with anchored := (n, node) :: r.anchored }

def aliasNode (name : Text) : Reader Node := do
  let names := (← get).names
  if names.contains name then return .alias name names.length else failure

mutual

/-- A node. In a block, block collections may start; where `indentless` holds, also the entries of
a sequence that is not indented. -/
def node : (fuel : Nat) → (block indentless : Bool) → Reader Node
  | 0, _, _ => failure
  | fuel + 1, block, indentless => do
    if let some (.alias name) ← peek then
      skip
      return ← aliasNode name
    let (anchor, tag) ← properties
    let tag ← fullTag tag
    let number ← declare anchor
    let result ← match ← peek with
      | some (.scalar style text) =>
        skip
        pure (Node.scalar tag style text)
      | some .flowSequenceStart =>
        skip
        pure (.sequence (← flowSequence fuel true))
      | some .flowMappingStart =>
        skip
        pure (.mapping (← flowMapping fuel true))
      | token =>
        if indentless && token = some .blockEntry then
          pure (.sequence (← indentlessSequence fuel))
        else if block && token = some .blockSequenceStart then
          skip
          pure (.sequence (← blockSequence fuel))
        else if block && token = some .blockMappingStart then
          skip
          pure (.mapping (← blockMapping fuel))
        else if anchor.isSome || tag.isSome then
          pure (.scalar tag .plain [])
        else failure
    complete number result
    return result

/-- The node that comes next, or the scalar for a node left out before one of the tokens. -/
def nodeUnless (tokens : List Token) : (fuel : Nat) → (block indentless : Bool) → Reader Node
  | 0, _, _ => failure
  | fuel + 1, block, indentless => do
    if ← nextIs tokens then return .omitted
    node fuel block indentless

def blockSequence : (fuel : Nat) → Reader (List Node)
  | 0 => failure
  | fuel + 1 => do
    match ← peek with
    | some .blockEntry =>
      skip
      let item ← nodeUnless [.blockEntry, .blockEnd] fuel true false
      return item :: (← blockSequence fuel)
    | some .blockEnd => skip; return []
    | _ => failure

def indentlessSequence : (fuel : Nat) → Reader (List Node)
  | 0 => failure
  | fuel + 1 => do
    match ← peek with
    | some .blockEntry =>
      skip
      let item ← nodeUnless [.blockEntry, .key, .value, .blockEnd] fuel true false
      return item :: (← indentlessSequence fuel)
    | _ => return []

/-- What follows the mark of a value, if the mark is there. -/
def valueUnless (tokens : List Token) : (fuel : Nat) → (block : Bool) → Reader Node
  | 0, _ => failure
  | fuel + 1, block => do
    match ← peek with
    | some .value =>
      skip
      nodeUnless tokens fuel block block
    | _ => return .omitted

def blockMapping : (fuel : Nat) → Reader (List (Node × Node))
  | 0 => failure
  | fuel + 1 => do
    match ← peek with
    | some .key =>
      skip
      let key ← nodeUnless [.key, .value, .blockEnd] fuel true true
      let value ← valueUnless [.key, .value, .blockEnd] fuel true
      return (key, value) :: (← blockMapping fuel)
    | some .blockEnd => skip; return []
    | _ => failure

/-- The entries of a flow sequence. A marked key makes an entry a mapping of one field; where its
key is left out, the token that shows this is passed. -/
def flowSequence : (fuel : Nat) → (first : Bool) → Reader (List Node)
  | 0, _ => failure
  | fuel + 1, first => do
    if (← peek) = some .flowSequenceEnd then
      skip
      return []
    if !first then expect .flowEntry
    match ← peek with
    | some .key =>
      skip
      let key ←
        if ← nextIs [.value, .flowEntry, .flowSequenceEnd] then
          skip
          pure Node.omitted
        else node fuel false false
      let value ← valueUnless [.flowEntry, .flowSequenceEnd] fuel false
      return .mapping [(key, value)] :: (← flowSequence fuel false)
    | some .flowSequenceEnd => skip; return []
    | _ =>
      let item ← node fuel false false
      return item :: (← flowSequence fuel false)

def flowMapping : (fuel : Nat) → (first : Bool) → Reader (List (Node × Node))
  | 0, _ => failure
  | fuel + 1, first => do
    if (← peek) = some .flowMappingEnd then
      skip
      return []
    if !first then expect .flowEntry
    match ← peek with
    | some .key =>
      skip
      let key ← nodeUnless [.value, .flowEntry, .flowMappingEnd] fuel false false
      let value ← valueUnless [.flowEntry, .flowMappingEnd] fuel false
      return (key, value) :: (← flowMapping fuel false)
    | some .flowMappingEnd => skip; return []
    | _ =>
      let key ← node fuel false false
      return (key, .omitted) :: (← flowMapping fuel false)

end

/-! ## Documents -/

/-- Handles that every document knows, unless a directive explains them otherwise. -/
def standardHandles : List (Text × Text) :=
  [(['!'], ['!']), (['!', '!'], "tag:yaml.org,2002:".toList)]

/-- The directives before a document. The version is given at most once and is 1.1 or 1.2; a handle
is explained at most once. -/
def directives : (fuel : Nat) → (versioned : Bool) → (handles : List (Text × Text)) → Reader Unit
  | 0, _, _ => failure
  | fuel + 1, versioned, handles => do
    match ← peek with
    | some (.versionDirective major minor) =>
      skip
      if versioned || major != 1 || (minor != 1 && minor != 2) then failure
      directives fuel true handles
    | some (.tagDirective handle lead) =>
      skip
      if (handles.lookup handle).isSome then failure
      directives fuel versioned (handles ++ [(handle, lead)])
    | _ => modify fun r => { r with handles := handles ++ standardHandles }

def isDirective : Token → Bool
  | .versionDirective .. => true
  | .tagDirective .. => true
  | _ => false

/-- A document that starts with its directives and its mark. Nothing need follow the mark. -/
def markedDocument (fuel : Nat) : Reader Node := do
  directives fuel false []
  expect .documentStart
  match ← peek with
  | none => return .omitted
  | some token =>
    if isDirective token || token = .documentStart || token = .documentEnd then return .omitted
    node fuel true false

/-- The document of a stream of at most one document, if there is one. -/
def document (fuel : Nat) : Reader (Option Node) := do
  match ← peek with
  | none => return none
  | some token =>
    let root ←
      if isDirective token || token = .documentStart then markedDocument fuel
      else node fuel true false
    modify fun r => { r with tokens := r.tokens.dropWhile (· = .documentEnd) }
    if (← peek).isSome then failure
    return some root

end Reader

/-- A document with its anchors in the order in which their nodes start. -/
structure Document where
  root : Node
  names : List Text
  anchored : List (Nat × Node)

namespace Document

/-- The document of the tokens of a stream; an empty stream has an empty document. -/
def ofTokens? (tokens : List Token) : Option Document := do
  let fuel := 4 * tokens.length + 8
  let (root, r) ← (Reader.document fuel).run ⟨tokens, Reader.standardHandles, [], []⟩
  return ⟨root.getD .omitted, r.names, r.anchored⟩

/-- Number under which an anchor is filed: how many different names come before it. -/
def slot (d : Document) (number : Nat) : Nat :=
  (d.names.take number).eraseDups.length

/-- The greatest number below `bound` that satisfies `p`. -/
def lastBelow? (p : Nat → Bool) (bound : Nat) : Option Nat :=
  ((List.range bound).filter p).getLast?

/-- The node that an alias refers to. Of several anchors filed under one number the last takes the
place of the others. -/
def target? (d : Document) (name : Text) (count : Nat) : Option Node := do
  let number ← lastBelow? (fun i => d.names[i]? == some name) count
  let last ← lastBelow? (fun i => d.slot i == d.slot number) d.names.length
  d.anchored.lookup last

/-- The node itself or the node that it refers to. -/
def resolve? (d : Document) : Node → Option Node
  | .alias name count => d.target? name count
  | node => some node

end Document

def read? (text : Text) : Option Document := do
  Document.ofTokens? (← tokens? text)

end ComponentForge.Yaml

import ServerFractions.Yaml.Token.Lexer

/-!
# Nodes of YAML documents

A document is a node: a scalar, a sequence, a mapping, or an alias for a node
with an anchor. Anchors are numbered by the names in use so far; an alias goes
by the number that its name has when it is read.
-/

namespace ServerFractions.Yaml

/-- A node, with the number of its anchor and its tag where it has them. -/
inductive Node where
  | scalar (anchor : Option Nat) (tag : Option String) (text : String) (style : Style)
  | sequence (anchor : Option Nat) (tag : Option String) (items : List Node)
  | mapping (anchor : Option Nat) (tag : Option String) (entries : List (Node × Node))
  | alias (anchor : Nat)
  deriving Repr, Inhabited

namespace Node

/-- The scalar that stands where a node is left out. -/
def empty : Node := .scalar none none "" .plain

-- ---------------------------------------------------------------------------
-- Reading tokens
-- ---------------------------------------------------------------------------

/-- The tokens that are left, the names of anchors with their numbers, and the
handles of tags with what they stand for. -/
structure Source where
  tokens : List Token
  anchors : List (String × Nat) := []
  handles : List (String × String) := []

abbrev Reader := StateT Source Option

/-- The next token, which stays. -/
def peek : Reader Token := do
  match (← get).tokens with
  | t :: _ => return t
  | [] => failure

def advance : Reader Unit :=
  modify fun s => { s with tokens := s.tokens.tail }

/-- Passes over the next token if it is `t`. -/
def accept (t : Token) : Reader Bool := do
  if (← peek) = t then
    advance
    return true
  else return false

def expect (t : Token) : Reader Unit := do
  if !(← accept t) then failure

/-- Whether the next token is one of the given ones. -/
def isNext (ts : List Token) : Reader Bool :=
  return ts.contains (← peek)

/-- Gives a name a new number. Numbers count the names in use, so a name that is
used again takes its number from under the next new name. -/
def nameAnchor (name : String) : Reader Nat := do
  let s ← get
  let number := s.anchors.length
  set { s with anchors := (name, number) :: s.anchors.filter (·.1 != name) }
  return number

/-- What a tag stands for. A tag without a handle is itself. -/
def expandTag (handle suffix : String) : Reader String := do
  if handle = "" then return suffix
  match (← get).handles.lookup handle with
  | some beginning => return beginning ++ suffix
  | none => failure

/-- An anchor and a tag, in either order. -/
def properties : Reader (Option Nat × Option String) := do
  match ← peek with
  | .anchor name => do
    advance
    match ← peek with
    | .tag h suffix =>
      advance
      let number ← nameAnchor name
      return (some number, some (← expandTag h suffix))
    | _ => return (some (← nameAnchor name), none)
  | .tag h suffix => do
    advance
    match ← peek with
    | .anchor name =>
      advance
      let number ← nameAnchor name
      return (some number, some (← expandTag h suffix))
    | _ => return (none, some (← expandTag h suffix))
  | _ => return (none, none)

/-- The tag of a scalar; the lone mark stands for none. -/
def scalarTag (tag : Option String) : Option String :=
  tag.filter (· != "!")

mutual

/-- A node. Only in the block context may it be a block collection, and only as
a part of a mapping a sequence that is not indented. -/
def read : (fuel : Nat) → (inBlock unindented : Bool) → Reader Node
  | 0, _, _ => failure
  | fuel + 1, inBlock, unindented => do
    match ← peek with
    | .alias name =>
      advance
      match (← get).anchors.lookup name with
      | some number => return .alias number
      | none => failure
    | _ =>
      let (anchor, tag) ← properties
      match ← peek with
      | .scalar text style =>
        advance
        return .scalar anchor (scalarTag tag) text style
      | .flowSequence =>
        advance
        return .sequence anchor tag (← flowItems fuel true)
      | .flowMapping =>
        advance
        return .mapping anchor tag (← flowEntries fuel true)
      | t =>
        if t = .blockEntry && unindented then
          return .sequence anchor tag (← unindentedItems fuel)
        else if t = .blockSequence && inBlock then
          advance
          return .sequence anchor tag (← blockItems fuel)
        else if t = .blockMapping && inBlock then
          advance
          return .mapping anchor tag (← blockEntries fuel)
        else if anchor.isSome || tag.isSome then
          return .scalar anchor (scalarTag tag) "" .plain
        else failure

/-- A node that may be left out before one of the given tokens. -/
def readUnless (ends : List Token) : (fuel : Nat) → (inBlock unindented : Bool) → Reader Node
  | 0, _, _ => failure
  | fuel + 1, inBlock, unindented => do
    if ← isNext ends then return empty
    read fuel inBlock unindented

/-- The items of a block sequence up to its end. -/
def blockItems : (fuel : Nat) → Reader (List Node)
  | 0 => failure
  | fuel + 1 => do
    if ← accept .blockEnd then return []
    expect .blockEntry
    let item ← readUnless [.blockEntry, .blockEnd] fuel true false
    return item :: (← blockItems fuel)

/-- The items of a sequence that stands in a mapping without indentation. -/
def unindentedItems : (fuel : Nat) → Reader (List Node)
  | 0 => failure
  | fuel + 1 => do
    if !(← accept .blockEntry) then return []
    let item ← readUnless [.blockEntry, .key, .value, .blockEnd] fuel true false
    return item :: (← unindentedItems fuel)

/-- The entries of a block mapping up to its end. A value without a key is
refused. -/
def blockEntries : (fuel : Nat) → Reader (List (Node × Node))
  | 0 => failure
  | fuel + 1 => do
    if ← accept .blockEnd then return []
    expect .key
    let ends := [.key, .value, .blockEnd]
    let k ← readUnless ends fuel true true
    let v ← blockValue ends fuel
    return (k, v) :: (← blockEntries fuel)

def blockValue (ends : List Token) : (fuel : Nat) → Reader Node
  | 0 => failure
  | fuel + 1 => do
    if ← accept .value then readUnless ends fuel true true else return empty

/-- The items of a flow sequence up to its end. A key among them makes a mapping
of one entry. -/
def flowItems : (fuel : Nat) → (first : Bool) → Reader (List Node)
  | 0, _ => failure
  | fuel + 1, first => do
    if ← accept .flowSequenceEnd then return []
    if !first then expect .flowEntry
    if ← accept .flowSequenceEnd then return []
    let item ← if ← accept .key then flowPair fuel else read fuel false false
    return item :: (← flowItems fuel false)

/-- The mapping of one entry that a key in a flow sequence makes. A key that is
left out takes the token after it along. -/
def flowPair : (fuel : Nat) → Reader Node
  | 0 => failure
  | fuel + 1 => do
    let k ←
      if ← isNext [.value, .flowEntry, .flowSequenceEnd] then do
        advance
        pure empty
      else read fuel false false
    let v ← flowValue [.flowEntry, .flowSequenceEnd] fuel
    return .mapping none none [(k, v)]

def flowValue (ends : List Token) : (fuel : Nat) → Reader Node
  | 0 => failure
  | fuel + 1 => do
    if ← accept .value then readUnless ends fuel false false else return empty

/-- The entries of a flow mapping up to its end. Without the mark of a key, an
entry has no value. -/
def flowEntries : (fuel : Nat) → (first : Bool) → Reader (List (Node × Node))
  | 0, _ => failure
  | fuel + 1, first => do
    if ← accept .flowMappingEnd then return []
    if !first then expect .flowEntry
    if ← accept .flowMappingEnd then return []
    let entry ←
      if ← accept .key then do
        let k ← readUnless [.value, .flowEntry, .flowMappingEnd] fuel false false
        let v ← flowValue [.flowEntry, .flowMappingEnd] fuel
        pure (k, v)
      else do
        let k ← read fuel false false
        pure (k, empty)
    return entry :: (← flowEntries fuel false)

end

end Node

-- ---------------------------------------------------------------------------
-- Documents
-- ---------------------------------------------------------------------------

namespace Document

open Node (Reader Source peek advance accept expect isNext)

/-- What handles stand for unless a directive says otherwise. -/
def defaultHandles : List (String × String) :=
  [("!", "!"), ("!!", "tag:yaml.org,2002:")]

/-- The directives before a document. The version must be one that is known and
stand once, and a handle may be explained once. -/
def directives : (fuel : Nat) → (versioned : Bool) → (handles : List (String × String)) →
    Reader (List (String × String))
  | 0, _, _ => failure
  | fuel + 1, versioned, handles => do
    match ← peek with
    | .version major minor =>
      if versioned || major != 1 || (minor != 1 && minor != 2) then failure
      advance
      directives fuel true handles
    | .handle h beginning =>
      if (handles.lookup h).isSome then failure
      advance
      directives fuel versioned (handles ++ [(h, beginning)])
    | _ => return handles

/-- The only document of a stream, or none. The mark of its beginning is needed
only after directives. -/
def readOnly (fuel : Nat) : Reader (Option Node) := do
  match ← peek with
  | .streamEnd => return none
  | .version .. | .handle .. | .documentStart =>
    let handles ← directives fuel false []
    expect .documentStart
    modify fun s => { s with handles := handles ++ defaultHandles }
    let ends ← match ← peek with
      | .version .. | .handle .. | .documentStart | .documentEnd | .streamEnd => pure true
      | _ => pure false
    return some (← if ends then pure Node.empty else Node.read fuel true false)
  | _ =>
    modify fun s => { s with handles := defaultHandles }
    return some (← Node.read fuel true false)

/-- Passes over the marks of the end of a document. -/
def skipEnds : (fuel : Nat) → Reader Unit
  | 0 => return
  | fuel + 1 => do
    if ← accept .documentEnd then skipEnds fuel

/-- The document of a stream that has no more than one; `none` for a stream
without documents. -/
def stream (fuel : Nat) : Reader (Option Node) := do
  let document ← readOnly fuel
  if document.isSome then skipEnds fuel
  expect .streamEnd
  return document

/-- The document that a text holds. Refused, as `none`, when the text is no YAML
or holds several documents. -/
def read? (text : String) : Option (Option Node) := do
  let tokens ← tokens? text
  return (← (stream (3 * tokens.length + 3)).run { tokens }).1

end Document

end ServerFractions.Yaml

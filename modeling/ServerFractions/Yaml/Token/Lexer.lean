import ServerFractions.Yaml.Scalar
import ServerFractions.Yaml.Tag

/-!
# Splitting YAML texts into tokens

Keys of mappings need no mark of their own: what a colon follows has been a key
all along. So the lexer keeps, for the block context and for each open flow
collection, the place where a key may have begun, and puts the tokens of the
key there when a colon comes. Such a key must lie within one line and within
1024 characters.
-/

namespace ServerFractions.Yaml

/-- Where a key may have begun. -/
structure KeyPlace where
  /-- Whether nothing else than a key can stand there. -/
  required : Bool
  /-- How many tokens stand before it. -/
  position : Nat
  start : Cursor

structure Lexer where
  cursor : Cursor
  tokens : Array Token := #[]
  /-- The column of the innermost block collection, `-1` outside of all. -/
  indent : Int := -1
  outerIndents : List Int := []
  /-- Whether a key may begin here. -/
  keyAllowed : Bool := true
  /-- The possible keys of the open flow collections, the innermost first, and
  of the block context. -/
  places : List (Option KeyPlace) := [none]

namespace Lexer

def inFlow (l : Lexer) : Bool :=
  1 < l.places.length

def emit (l : Lexer) (t : Token) : Lexer :=
  { l with tokens := l.tokens.push t }

def skip (l : Lexer) (n : Nat) : Lexer :=
  { l with cursor := l.cursor.skip n }

def allowKey (l : Lexer) (allowed : Bool) : Lexer :=
  { l with keyAllowed := allowed }

-- ---------------------------------------------------------------------------
-- Gaps between tokens
-- ---------------------------------------------------------------------------

/-- Moves on to the next token. A new line in the block context may begin with a
key; tabs do not indent what may be one. A byte order mark may begin the text. -/
def skipGap : (fuel : Nat) → Lexer → Lexer
  | 0, l => l
  | fuel + 1, l =>
    let tabs := l.inFlow || !l.keyAllowed
    let c := if l.cursor.index = 0 && l.cursor.at? '\uFEFF' then l.cursor.skip 1 else l.cursor
    let c := (c.skipWhile fun x => x == ' ' || (tabs && x == '\t')).skipComment
    match c.break? with
    | some (_, c) => skipGap fuel { l with cursor := c, keyAllowed := l.keyAllowed || !l.inFlow }
    | none => { l with cursor := c }

-- ---------------------------------------------------------------------------
-- Possible keys
-- ---------------------------------------------------------------------------

/-- How many characters a key may have. -/
def keyLimit : Nat := 1024

/-- Whether what began at a place can no longer be a key. -/
def isStale (l : Lexer) (p : KeyPlace) : Bool :=
  p.start.line < l.cursor.line || p.start.index + keyLimit < l.cursor.index

/-- Gives up the keys that have become too long. One that is required may not. -/
def dropStale (l : Lexer) : Option Lexer := do
  let places ← l.places.mapM fun place =>
    match place with
    | none => some none
    | some p => if l.isStale p then (if p.required then none else some none) else some (some p)
  return { l with places }

/-- Gives up the innermost possible key, which may not be required. -/
def dropPlace (l : Lexer) : Option Lexer :=
  match l.places with
  | some p :: outer => if p.required then none else some { l with places := none :: outer }
  | _ => some l

def notePlace (l : Lexer) : Option Lexer := do
  if !l.keyAllowed then return l
  let l ← l.dropPlace
  let place : KeyPlace :=
    { required := !l.inFlow && l.indent == l.cursor.column
      position := l.tokens.size
      start := l.cursor }
  return { l with places := some place :: l.places.tail }

-- ---------------------------------------------------------------------------
-- Indentation
-- ---------------------------------------------------------------------------

/-- Closes the block collections that are indented more than `column`. -/
def closeBlocks (column : Int) (tokens : Array Token) (indent : Int) :
    List Int → Array Token × Int × List Int
  | [] => (tokens, indent, [])
  | outer :: rest =>
    if column < indent then closeBlocks column (tokens.push .blockEnd) outer rest
    else (tokens, indent, outer :: rest)

def unindent (l : Lexer) (column : Int) : Lexer :=
  if l.inFlow then l
  else
    let (tokens, indent, outerIndents) := closeBlocks column l.tokens l.indent l.outerIndents
    { l with tokens, indent, outerIndents }

/-- Opens a block collection at `column` with the token `t`, before the token at
`position`, unless one of that indentation is open. -/
def indentTo (l : Lexer) (column position : Nat) (t : Token) : Lexer :=
  if l.inFlow || column ≤ l.indent then l
  else
    { l with
      tokens := l.tokens.insertIdxIfInBounds position t
      indent := column
      outerIndents := l.indent :: l.outerIndents }

-- ---------------------------------------------------------------------------
-- Tokens
-- ---------------------------------------------------------------------------

/-- Ends all block collections before a directive, a mark of a document or the
end of the text. -/
def leaveBlocks (l : Lexer) : Option Lexer :=
  (l.unindent (-1)).dropPlace.map (·.allowKey false)

def openFlow (l : Lexer) (t : Token) : Option Lexer := do
  let l ← l.notePlace
  return (({ l with places := none :: l.places }.allowKey true).skip 1).emit t

def closeFlow (l : Lexer) (t : Token) : Option Lexer := do
  let l ← l.dropPlace
  let places := if l.inFlow then l.places.tail else l.places
  return (({ l with places }.allowKey false).skip 1).emit t

/-- A mark in the block context that begins an entry or a key, and with it the
collection if none is open here. -/
def beginEntry (l : Lexer) (collection : Token) : Option Lexer :=
  if l.inFlow then some l
  else if l.keyAllowed then some (l.indentTo l.cursor.column l.tokens.size collection)
  else none

def blockEntry (l : Lexer) : Option Lexer := do
  let l ← (← l.beginEntry .blockSequence).dropPlace
  return ((l.allowKey true).skip 1).emit .blockEntry

def flowEntry (l : Lexer) : Option Lexer :=
  l.dropPlace.map fun l => ((l.allowKey true).skip 1).emit .flowEntry

/-- A key with a mark of its own. -/
def key (l : Lexer) : Option Lexer := do
  let l ← (← l.beginEntry .blockMapping).dropPlace
  return ((l.allowKey (!l.inFlow)).skip 1).emit .key

/-- A colon: what stood at the noted place was a key, or a key with a mark of its
own came before. -/
def value (l : Lexer) : Option Lexer := do
  match l.places with
  | some p :: outer =>
    let l := { l with tokens := l.tokens.insertIdxIfInBounds p.position .key }
    let l := l.indentTo p.start.column p.position .blockMapping
    return (({ l with places := none :: outer }.allowKey false).skip 1).emit .value
  | _ =>
    let l ← l.beginEntry .blockMapping
    return ((l.allowKey (!l.inFlow)).skip 1).emit .value

/-- A token after which no key may begin, but which may be one. -/
def keyLike (l : Lexer) (t : Token) (after : Cursor) : Option Lexer :=
  l.notePlace.map fun l => ({ l with cursor := after }.allowKey false).emit t

def flowScalar (l : Lexer) (style : Style) (found : Found) : Option Lexer :=
  (l.keyLike (.scalar (String.ofList found.text) style) found.after).map fun l =>
    l.allowKey found.broken

/-- A block scalar, which is never a key. -/
def blockScalar (l : Lexer) (style : Style) (found : Found) : Option Lexer :=
  l.dropPlace.map fun l =>
    ({ l with cursor := found.after }.allowKey true).emit (.scalar (String.ofList found.text) style)

/-- Marks with which no plain scalar begins. -/
def indicators : List Char :=
  "-?:,[]\x7b\x7d#&*!|>'\"%@`".toList

def beginsPlain (l : Lexer) (x : Char) : Bool :=
  let c := l.cursor
  !(indicators.contains x || isBlank x || isBreak x) ||
    (x == '-' && !c.rest[1]?.any isBlank) ||
    (!l.inFlow && (x == '?' || x == ':') && !c.gapAt 1)

/-- The token that begins with `x`. -/
def token (fuel : Nat) (l : Lexer) (x : Char) : Option Lexer := do
  let c := l.cursor
  let marked := l.inFlow || c.gapAt 1
  if c.column = 0 && x = '%' then
    let l ← l.leaveBlocks
    let (t, c) ← directive? fuel (l.cursor.skip 1)
    return { l with cursor := c }.emit t
  if c.marks '-' then return ((← l.leaveBlocks).skip 3).emit .documentStart
  if c.marks '.' then return ((← l.leaveBlocks).skip 3).emit .documentEnd
  match x with
  | '[' => l.openFlow .flowSequence
  | '\x7b' => l.openFlow .flowMapping
  | ']' => l.closeFlow .flowSequenceEnd
  | '\x7d' => l.closeFlow .flowMappingEnd
  | ',' => l.flowEntry
  | '*' => do
    let (name, c) ← name? (c.skip 1)
    l.keyLike (.alias name) c
  | '&' => do
    let (name, c) ← name? (c.skip 1)
    l.keyLike (.anchor name) c
  | '!' => do
    let (t, c) ← tag? l.inFlow fuel c
    l.keyLike t c
  | '\'' => do l.flowScalar .singleQuoted (← quoted x fuel [] (c.skip 1))
  | '"' => do l.flowScalar .doubleQuoted (← quoted x fuel [] (c.skip 1))
  | _ =>
    if x = '-' && c.gapAt 1 then l.blockEntry
    else if x = '?' && marked then l.key
    else if x = ':' && marked then l.value
    else if x = '|' && !l.inFlow then l.blockScalar .literal (← block true l.indent fuel (c.skip 1))
    else if x = '>' && !l.inFlow then l.blockScalar .folded (← block false l.indent fuel (c.skip 1))
    else if l.beginsPlain x then
      l.flowScalar .plain (← plain l.inFlow (l.indent + 1).toNat fuel [] {} c)
    else none

def run : (fuel : Nat) → Lexer → Option (List Token)
  | 0, _ => none
  | fuel + 1, l => do
    let l ← (l.skipGap fuel).dropStale
    let l := l.unindent l.cursor.column
    match l.cursor.rest with
    | [] =>
      let l ← { l with cursor := { l.cursor with column := 0 } }.leaveBlocks
      return (l.emit .streamEnd).tokens.toList
    | x :: _ => run fuel (← l.token fuel x)

end Lexer

/-- The tokens of a text. A byte order mark before it is no part of it. -/
def tokens? (text : String) : Option (List Token) :=
  let cs := match text.toList with
    | '\uFEFF' :: rest => rest
    | cs => cs
  if cs.all isAllowed then Lexer.run (cs.length + 2) { cursor := { rest := cs } } else none

end ServerFractions.Yaml

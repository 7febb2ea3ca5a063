import ServerFractions.Text.Hex
import ServerFractions.Yaml.Cursor

/-!
# Scalars of YAML texts

Plain, quoted and block scalars. In all of them, single line breaks within the
text are folded into blanks and further ones are kept; block scalars may ask
for every break to be kept.
-/

namespace ServerFractions.Yaml

-- ---------------------------------------------------------------------------
-- Gaps
-- ---------------------------------------------------------------------------

/-- What stands between two words of a scalar: blanks, or line breaks with
blanks around them. -/
structure Gap where
  blanks : List Char := []
  broken : Bool := false
  first : List Char := []
  more : List Char := []
  deriving Repr

namespace Gap

/-- A gap in the text of the scalar. A lone line feed becomes a blank, and is
dropped before further breaks. -/
def text (g : Gap) : List Char :=
  if !g.broken then g.blanks
  else if g.first = ['\n'] then (if g.more.isEmpty then [' '] else g.more)
  else g.first ++ g.more

def addBreak (g : Gap) (b : List Char) : Gap :=
  if g.broken then { g with more := g.more ++ b } else { g with broken := true, first := b }

/-- Reads on to the next word. After a break, tabs in columns below `margin` are
refused. -/
def read (margin : Nat) : (fuel : Nat) → Gap → Cursor → Option (Gap × Cursor)
  | 0, _, _ => none
  | fuel + 1, g, c =>
    match c.break? with
    | some (b, c) => read margin fuel (g.addBreak b) c
    | none =>
      match c.rest.head?.filter isBlank with
      | none => some (g, c)
      | some x =>
        if !g.broken then read margin fuel { g with blanks := g.blanks ++ [x] } (c.skip 1)
        else if x = '\t' ∧ c.column < margin then none
        else read margin fuel g (c.skip 1)

end Gap

-- ---------------------------------------------------------------------------
-- Plain scalars
-- ---------------------------------------------------------------------------

def isFlowBracket (c : Char) : Bool :=
  c == '[' || c == ']' || c == '\x7b' || c == '\x7d'

/-- The word of a plain scalar that comes next. Inside flow collections it ends
before brackets and commas too, and a colon right before one of these is
refused. -/
def plainWord (flow : Bool) : List Char → Option (List Char)
  | [] => some []
  | x :: rest =>
    if isBlank x || isBreak x then some []
    else if x == ':' && flow && rest.head?.any (fun y => isFlowBracket y || y == ',' || y == '?') then
      none
    else if x == ':' && rest.head?.all (fun y => isBlank y || isBreak y) then some []
    else if flow && (isFlowBracket x || x == ',') then some []
    else (plainWord flow rest).map (x :: ·)

/-- A scalar, whether a line break follows it, and the place after it. -/
structure Found where
  text : List Char
  broken : Bool := false
  after : Cursor

/-- Reads on in a plain scalar, in lines that reach the column `margin`. -/
def plain (flow : Bool) (margin : Nat) :
    (fuel : Nat) → (text : List Char) → Gap → Cursor → Option Found
  | 0, _, _, _ => none
  | fuel + 1, text, gap, c =>
    if c.isDocumentMark || c.at? '#' then some { text, broken := gap.broken, after := c }
    else do
      let word ← plainWord flow c.rest
      if word.isEmpty then return { text, broken := gap.broken, after := c }
      let text := text ++ gap.text ++ word
      let c := c.skip word.length
      if c.isEnd || !c.gapAt 0 then return { text, after := c }
      let (gap, c) ← Gap.read margin fuel {} c
      if !flow && c.column < margin then return { text, broken := gap.broken, after := c }
      plain flow margin fuel text gap c

-- ---------------------------------------------------------------------------
-- Quoted scalars
-- ---------------------------------------------------------------------------

/-- The character that an escape of one letter stands for. -/
def shortEscape : Char → Option Char
  | '0' => some '\x00'
  | 'a' => some '\x07'
  | 'b' => some '\x08'
  | 't' | '\t' => some '\t'
  | 'n' => some '\n'
  | 'v' => some '\x0b'
  | 'f' => some '\x0c'
  | 'r' => some '\r'
  | 'e' => some '\x1b'
  | ' ' => some ' '
  | '"' => some '"'
  | '/' => some '/'
  | '\\' => some '\\'
  | 'N' => some '\u0085'
  | '_' => some '\u00a0'
  | 'L' => some '\u2028'
  | 'P' => some '\u2029'
  | _ => none

/-- How many digits follow the letter of a numeric escape. -/
def codeLength : Char → Nat
  | 'x' => 2
  | 'u' => 4
  | 'U' => 8
  | _ => 0

/-- The character of an escape, and the length of the escape after the
backslash. -/
def escape? : List Char → Option (Char × Nat)
  | [] => none
  | x :: rest =>
    match shortEscape x with
    | some e => some (e, 1)
    | none => do
      let digits := rest.take (codeLength x)
      if digits.isEmpty || digits.length < codeLength x then none
      return (← Text.charOf? (← Text.digitsValue? 16 digits), 1 + codeLength x)

/-- The word of a quoted scalar that comes next, whether an escaped line break
ends it, and the place after it. -/
def quotedWord (quote : Char) : (fuel : Nat) → Cursor → Option (List Char × Bool × Cursor)
  | 0, _ => none
  | fuel + 1, c =>
    match c.rest with
    | [] => some ([], false, c)
    | x :: rest =>
      if isBlank x || isBreak x then some ([], false, c)
      else if x = quote then
        if quote = '\'' ∧ rest.head? = some '\'' then do
          let (more, ended, c) ← quotedWord quote fuel (c.skip 2)
          return ('\'' :: more, ended, c)
        else some ([], false, c)
      else if x = '\\' ∧ quote = '"' then
        match (c.skip 1).break? with
        | some (_, c) => some ([], true, c)
        | none => do
          let (e, length) ← escape? rest
          let (more, ended, c) ← quotedWord quote fuel (c.skip (1 + length))
          return (e :: more, ended, c)
      else do
        let (more, ended, c) ← quotedWord quote fuel (c.skip 1)
        return (x :: more, ended, c)

/-- Reads on in a quoted scalar up to its closing quote. -/
def quoted (quote : Char) : (fuel : Nat) → (text : List Char) → Cursor → Option Found
  | 0, _, _ => none
  | fuel + 1, text, c =>
    if c.isDocumentMark || c.isEnd then none
    else do
      let (word, escaped, c) ← quotedWord quote fuel c
      let text := text ++ word
      if c.at? quote then return { text, after := c.skip 1 }
      let (gap, c) ← Gap.read 0 fuel { broken := escaped } c
      quoted quote fuel (text ++ gap.text) c

-- ---------------------------------------------------------------------------
-- Block scalars
-- ---------------------------------------------------------------------------

/-- What becomes of the line breaks at the end of a block scalar. -/
inductive Chomping where
  | strip
  | clip
  | keep
  deriving DecidableEq, Repr

/-- The indicators behind the mark of a block scalar, in either order: the
chomping, and the indentation if it is given. -/
def indicators? (cs : List Char) : Option ((Chomping × Nat) × Nat) :=
  let chomping? (c : Char) : Option Chomping :=
    if c = '+' then some .keep else if c = '-' then some .strip else none
  let digit? (c : Char) : Option Nat := if c.isDigit then some (c.toNat - 48) else none
  let (found, length) : (Chomping × Option Nat) × Nat :=
    match cs.head?.bind chomping?, cs.head?.bind digit? with
    | some k, _ =>
      match cs[1]?.bind digit? with
      | some d => ((k, some d), 2)
      | none => ((k, none), 1)
    | none, some d =>
      match cs[1]?.bind chomping? with
      | some k => ((k, some d), 2)
      | none => ((.clip, some d), 1)
    | none, none => ((.clip, none), 0)
  if found.2 = some 0 then none else some ((found.1, found.2.getD 0), length)

/-- The empty lines and the indentation that come next. A `limit` of zero is not
known yet. Gives the deepest indentation seen, the line breaks, and the place
after them. -/
def indentation (limit : Nat) :
    (fuel : Nat) → (deepest : Nat) → (breaks : List Char) → Cursor →
      Option (Nat × List Char × Cursor)
  | 0, _, _, _ => none
  | fuel + 1, deepest, breaks, c =>
    let blanks := (c.rest.takeWhile (· == ' ')).length
    let c := c.skip (if limit = 0 then blanks else min blanks (limit - c.column))
    if (limit = 0 || c.column < limit) && c.at? '\t' then none
    else
      match c.break? with
      | some (b, c') => indentation limit fuel (max deepest c.column) (breaks ++ b) c'
      | none => some (max deepest c.column, breaks, c)

/-- A block scalar so far: its text, the break of its last line, the breaks of
the empty lines after that, and whether the last line began with a blank. -/
structure Block where
  text : List Char := []
  lastBreak : List Char := []
  empty : List Char := []
  blankLine : Bool := false
  deriving Repr

/-- The text with which the next line is joined on. -/
def Block.joint (b : Block) (literal nextBlank : Bool) : List Char :=
  if !literal && b.lastBreak == ['\n'] && !b.blankLine && !nextBlank then
    if b.empty.isEmpty then [' '] else b.empty
  else b.lastBreak ++ b.empty

/-- Reads the lines of a block scalar that are indented up to `limit`. -/
def blockLines (literal : Bool) (limit : Nat) :
    (fuel : Nat) → Block → Cursor → Option (Block × Cursor)
  | 0, _, _ => none
  | fuel + 1, b, c =>
    if c.column != limit || c.isEnd then some (b, c)
    else do
      let line := c.rest.takeWhile (!isBreak ·)
      let nextBlank := line.head?.any isBlank
      let c := c.skip line.length
      let (lastBreak, c) := c.break?.getD ([], c)
      let (_, empty, c) ← indentation limit fuel 0 [] c
      blockLines literal limit fuel
        { text := b.text ++ b.joint literal nextBlank ++ line, lastBreak, empty,
          blankLine := nextBlank } c

/-- A block scalar after its mark, below a node of the given indentation. -/
def block (literal : Bool) (indent : Int) (fuel : Nat) (c : Cursor) : Option Found := do
  let ((chomping, given), length) ← indicators? c.rest
  let c := (c.skip length).skipBlanks.skipComment
  if !c.lineEnds then none
  let c := (c.break?.map (·.2)).getD c
  let fixed := if given = 0 then 0 else (max indent 0).toNat + given
  let (deepest, empty, c) ← indentation fixed fuel 0 [] c
  let limit := if fixed = 0 then max (max deepest (indent + 1).toNat) 1 else fixed
  let (b, c) ← blockLines literal limit fuel { empty } c
  let tail := match chomping with
    | .strip => []
    | .clip => b.lastBreak
    | .keep => b.lastBreak ++ b.empty
  return { text := b.text ++ tail, after := c }

end ServerFractions.Yaml

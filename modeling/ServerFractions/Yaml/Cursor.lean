/-!
# Places in a YAML text

A cursor stands somewhere in a text and knows its line and column, which decide
how the text is nested. Five characters break lines; a carriage return and a
line feed together count as one break.
-/

namespace ServerFractions.Yaml

/-- The separators of lines and paragraphs, which are kept as they are when
lines are joined. -/
def isSeparator (c : Char) : Bool :=
  c.toNat == 0x2028 || c.toNat == 0x2029

def isBreak (c : Char) : Bool :=
  c == '\n' || c == '\r' || c.toNat == 0x85 || isSeparator c

def isBlank (c : Char) : Bool :=
  c == ' ' || c == '\t'

/-- A letter, a digit, or one of the two marks that may stand in names. -/
def isNameChar (c : Char) : Bool :=
  c.isAlphanum || c == '_' || c == '-'

/-- Whether a character may stand in a text at all. -/
def isAllowed (c : Char) : Bool :=
  let n := c.toNat
  n == 9 || n == 10 || n == 13 || (0x20 ≤ n && n ≤ 0x7E) || n == 0x85 || (0xA0 ≤ n && n ≤ 0xD7FF) ||
    (0xE000 ≤ n && n ≤ 0xFFFD) || 0x10000 ≤ n

structure Cursor where
  rest : List Char
  index : Nat := 0
  line : Nat := 0
  column : Nat := 0
  deriving Repr

namespace Cursor

def isEnd (c : Cursor) : Bool :=
  c.rest.isEmpty

def at? (c : Cursor) (x : Char) : Bool :=
  c.rest.head? == some x

/-- Whether blank text, a line break or the end is `n` characters away. -/
def gapAt (c : Cursor) (n : Nat) : Bool :=
  c.rest[n]?.all fun x => isBlank x || isBreak x

def lineEnds (c : Cursor) : Bool :=
  c.rest.head?.all isBreak

/-- Moves on by so many characters of the same line. -/
def skip (c : Cursor) (n : Nat) : Cursor :=
  { c with rest := c.rest.drop n, index := c.index + n, column := c.column + n }

def skipWhile (c : Cursor) (p : Char → Bool) : Cursor :=
  c.skip (c.rest.takeWhile p).length

def skipBlanks (c : Cursor) : Cursor :=
  c.skipWhile isBlank

/-- Moves on to the end of the line if a comment is next. -/
def skipComment (c : Cursor) : Cursor :=
  if c.at? '#' then c.skipWhile (!isBreak ·) else c

/-- A line break, as it counts in scalars, and the place after it. -/
def break? (c : Cursor) : Option (List Char × Cursor) :=
  match c.rest with
  | '\r' :: '\n' :: rest => some (['\n'], ⟨rest, c.index + 2, c.line + 1, 0⟩)
  | x :: rest =>
    if isBreak x then
      some ([if isSeparator x then x else '\n'], ⟨rest, c.index + 1, c.line + 1, 0⟩)
    else none
  | [] => none

/-- Whether a line begins here with three of the given character and nothing
more. -/
def marks (c : Cursor) (x : Char) : Bool :=
  c.column == 0 && c.rest.take 3 == [x, x, x] && c.gapAt 3

def isDocumentMark (c : Cursor) : Bool :=
  c.marks '-' || c.marks '.'

end Cursor

end ServerFractions.Yaml

import ServerFractions.Text.Hex
import ServerFractions.Yaml.Cursor
import ServerFractions.Yaml.Token

/-!
# Names, tags and directives of YAML texts

Anchors and aliases are names. A tag is written out in angle brackets or as a
suffix to a handle; `%TAG` directives say what a handle stands for.
-/

namespace ServerFractions.Yaml

/-- The name behind the mark of an anchor or alias. Only a gap or one of a few
marks may follow it. -/
def name? (c : Cursor) : Option (String × Cursor) :=
  let name := c.rest.takeWhile isNameChar
  let c := c.skip name.length
  if !name.isEmpty && (c.gapAt 0 || c.rest.head?.any ("?:,]\x7d%@`".toList.contains ·)) then
    some (String.ofList name, c)
  else none

-- ---------------------------------------------------------------------------
-- Tags
-- ---------------------------------------------------------------------------

/-- Marks that may stand in tags besides names. -/
def tagMarks : List Char :=
  ";/?:@&=+$.%!~*'()".toList

/-- Whether a character may stand in a tag; commas and square brackets only in
one that is written out. -/
def isTagChar (full : Bool) (c : Char) : Bool :=
  isNameChar c || tagMarks.contains c || (full && (c == ',' || c == '[' || c == ']'))

/-- A byte that is written as a percent sign and two digits. -/
def escapedByte? : List Char → Option Nat
  | '%' :: a :: b :: _ => Text.digitsValue? 16 [a, b]
  | _ => none

/-- The bytes that follow the first byte of a character. -/
def moreBytes? : (count : Nat) → (code : Nat) → List Char → Option Nat
  | 0, code, _ => some code
  | count + 1, code, cs => do
    let b ← escapedByte? cs
    if b &&& 0xC0 = 0x80 then moreBytes? count (64 * code + b % 64) (cs.drop 3) else none

/-- The character that escaped bytes spell, and how many bytes there are. -/
def escapedChar? (cs : List Char) : Option (Char × Nat) := do
  let b ← escapedByte? cs
  let (count, code) ←
    if b < 0x80 then some (1, b)
    else if b &&& 0xE0 = 0xC0 then some (2, b % 32)
    else if b &&& 0xF0 = 0xE0 then some (3, b % 16)
    else if b &&& 0xF8 = 0xF0 then some (4, b % 8)
    else none
  return (← Text.charOf? (← moreBytes? (count - 1) code (cs.drop 3)), count)

def tagText? (full : Bool) : (fuel : Nat) → Cursor → Option (List Char × Cursor)
  | 0, _ => none
  | fuel + 1, c =>
    match c.rest with
    | [] => some ([], c)
    | x :: _ =>
      if x = '%' then do
        let (e, count) ← escapedChar? c.rest
        let (more, c) ← tagText? full fuel (c.skip (3 * count))
        return (e :: more, c)
      else if isTagChar full x then
        (tagText? full fuel (c.skip 1)).map fun (more, c) => (x :: more, c)
      else some ([], c)

/-- The characters of a tag, at least one. -/
def someTagText? (full : Bool) (fuel : Nat) (c : Cursor) : Option (List Char × Cursor) :=
  (tagText? full fuel c).filter (!·.1.isEmpty)

/-- A handle from its first exclamation mark on: a lone mark, or a name that ends
in a second one. Without the second one it is only the beginning of a tag. -/
def handle (c : Cursor) : List Char × Cursor :=
  let name := (c.rest.drop 1).takeWhile isNameChar
  let c' := c.skip (1 + name.length)
  if c'.at? '!' then ('!' :: name ++ ['!'], c'.skip 1) else ('!' :: name, c')

/-- The handle and the suffix of a tag, from its exclamation mark on. A tag
without a handle of its own has the lone mark, and a lone mark is its own
suffix. -/
def tagParts? (fuel : Nat) (c : Cursor) : Option ((List Char × List Char) × Cursor) :=
  match c.rest with
  | '!' :: '<' :: _ => do
    let (suffix, c) ← someTagText? true fuel (c.skip 2)
    if c.at? '>' then return (([], suffix), c.skip 1) else none
  | _ =>
    let (h, after) := handle c
    if 1 < h.length && h.getLast? == some '!' then
      (someTagText? false fuel after).map fun (suffix, c) => ((h, suffix), c)
    else do
      let (more, c) ← tagText? false fuel after
      match h.drop 1 ++ more with
      | [] => return (([], ['!']), c)
      | suffix => return ((['!'], suffix), c)

/-- A tag. A gap has to follow it, or a comma inside flow collections. -/
def tag? (flow : Bool) (fuel : Nat) (c : Cursor) : Option (Token × Cursor) := do
  let ((h, suffix), c) ← tagParts? fuel c
  if c.gapAt 0 || (flow && c.at? ',') then
    return (.tag (String.ofList h) (String.ofList suffix), c)
  else none

-- ---------------------------------------------------------------------------
-- Directives
-- ---------------------------------------------------------------------------

/-- A number of up to nine digits. -/
def shortNumber? (c : Cursor) : Option (Nat × Cursor) :=
  let digits := c.rest.takeWhile Char.isDigit
  if digits.isEmpty || 9 < digits.length then none
  else (Text.digitsValue? 10 digits).map (·, c.skip digits.length)

def version? (c : Cursor) : Option (Token × Cursor) := do
  let (major, c) ← shortNumber? c.skipBlanks
  if !c.at? '.' then none
  let (minor, c) ← shortNumber? (c.skip 1)
  return (.version major minor, c)

/-- A handle and what it stands for, behind the name of the directive. -/
def handleDirective? (fuel : Nat) (c : Cursor) : Option (Token × Cursor) := do
  let c := c.skipBlanks
  if !c.at? '!' then none
  let (h, c) := handle c
  if h != ['!'] && h.getLast? != some '!' then none
  if c.isEnd || !c.rest.head?.any isBlank then none
  let (beginning, c) ← someTagText? true fuel c.skipBlanks
  if c.gapAt 0 then return (.handle (String.ofList h) (String.ofList beginning), c) else none

/-- A directive after its mark, and the rest of its line. -/
def directive? (fuel : Nat) (c : Cursor) : Option (Token × Cursor) := do
  let name := c.rest.takeWhile isNameChar
  let c := c.skip name.length
  if !c.gapAt 0 then none
  let (t, c) ←
    if name = "YAML".toList then version? c
    else if name = "TAG".toList then handleDirective? fuel c
    else none
  let c := c.skipBlanks.skipComment
  if c.lineEnds then return (t, (c.break?.map (·.2)).getD c) else none

end ServerFractions.Yaml

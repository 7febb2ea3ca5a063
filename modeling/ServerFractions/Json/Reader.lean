import ServerFractions.Json.Value
import ServerFractions.Text.Hex

/-!
# Reading JSON

The reader is strict: no comments, no trailing commas, no raw control
characters in strings, nothing after the value. It accepts half of a surrogate
pair in an escape and leaves it to the caller whether the text matters.
Numbers may have any size and containers any depth.
-/

namespace ServerFractions.Json

namespace Reader

open ServerFractions.Text (hexValue?)

-- ---------------------------------------------------------------------------
-- Blanks and digits
-- ---------------------------------------------------------------------------

def isSpace (c : Char) : Bool :=
  c == ' ' || c == '\n' || c == '\t' || c == '\r'

def skipSpace (cs : List Char) : List Char :=
  cs.dropWhile isSpace

/-- The rest of the text after an expected character, blanks before it skipped. -/
def expect (c : Char) (cs : List Char) : Option (List Char) :=
  match skipSpace cs with
  | d :: rest => if d = c then some rest else none
  | [] => none

-- ---------------------------------------------------------------------------
-- Strings
-- ---------------------------------------------------------------------------

/-- A code unit of four hexadecimal digits. -/
def codeUnit : List Char → Option (Nat × List Char)
  | a :: b :: c :: d :: rest => do
    let n := 16 * (16 * (16 * (← hexValue? a) + (← hexValue? b)) + (← hexValue? c)) + (← hexValue? d)
    return (n, rest)
  | _ => none

def shortEscape : Char → Option Char
  | '"' => some '"'
  | '\\' => some '\\'
  | '/' => some '/'
  | 'b' => some '\x08'
  | 'f' => some '\x0c'
  | 'n' => some '\n'
  | 'r' => some '\r'
  | 't' => some '\t'
  | _ => none

def isHighHalf (n : Nat) : Bool := 0xD800 ≤ n && n < 0xDC00

def isLowHalf (n : Nat) : Bool := 0xDC00 ≤ n && n < 0xE000

/-- The code unit of an escape that may follow the first half of a pair. -/
def lowHalf? : List Char → Option (Nat × List Char)
  | '\\' :: 'u' :: rest => (codeUnit rest).filter (isLowHalf ·.1)
  | _ => none

/-- What an escape of four digits stands for, and the text after it: a
character, or `none` for half of a pair. -/
def unicodeEscape (cs : List Char) : Option (Option Char × List Char) := do
  let (n, rest) ← codeUnit cs
  if isHighHalf n then
    match lowHalf? rest with
    | some (m, rest) => return (some (Char.ofNat (0x10000 + 0x400 * (n - 0xD800) + (m - 0xDC00))), rest)
    | none => return (none, rest)
  else if isLowHalf n then return (none, rest)
  else return (some (Char.ofNat n), rest)

/-- One character of a string, plain or escaped, that is not the closing quote. -/
def character : List Char → Option (Option Char × List Char)
  | '\\' :: 'u' :: rest => unicodeEscape rest
  | '\\' :: c :: rest => (shortEscape c).map fun e => (some e, rest)
  | c :: rest => if c.toNat < 32 || c = '\\' then none else some (some c, rest)
  | [] => none

def characters : (fuel : Nat) → List Char → Option (Option (List Char) × List Char)
  | 0, _ => none
  | fuel + 1, cs =>
    match cs with
    | '"' :: rest => some (some [], rest)
    | cs => do
      let (c, rest) ← character cs
      let (more, rest) ← characters fuel rest
      return (c.bind fun c => more.map (c :: ·), rest)

/-- A string after its opening quote. -/
def string (fuel : Nat) (cs : List Char) : Option (Text × List Char) :=
  (characters fuel cs).map fun (s, rest) => (s.map String.ofList, rest)

-- ---------------------------------------------------------------------------
-- Numbers
-- ---------------------------------------------------------------------------

/-- At least one digit. -/
def digits (cs : List Char) : Option (List Char × List Char) :=
  match cs.takeWhile Char.isDigit with
  | [] => none
  | ds => some (ds, cs.dropWhile Char.isDigit)

/-- The digits before the point; a leading zero stands alone. -/
def wholePart : List Char → Option (List Char × List Char)
  | '0' :: rest => if rest.head?.any Char.isDigit then none else some (['0'], rest)
  | cs => digits cs

def fractionPart : List Char → Option (List Char × List Char)
  | '.' :: rest => digits rest
  | cs => some ([], cs)

def exponentPart (cs : List Char) : Option (Int × List Char) :=
  match cs with
  | c :: rest =>
    if c = 'e' ∨ c = 'E' then
      match rest with
      | '-' :: rest => (digits rest).map fun (ds, rest) => (-(Decimal.ofDigits ds : Int), rest)
      | '+' :: rest => (digits rest).map fun (ds, rest) => ((Decimal.ofDigits ds : Int), rest)
      | rest => (digits rest).map fun (ds, rest) => ((Decimal.ofDigits ds : Int), rest)
    else some (0, cs)
  | [] => some (0, [])

def unsigned (negative : Bool) (cs : List Char) : Option (Decimal × List Char) := do
  let (whole, rest) ← wholePart cs
  let (fraction, rest) ← fractionPart rest
  let (exponent, rest) ← exponentPart rest
  return ({ negative, significand := Decimal.ofDigits (whole ++ fraction),
            exponent := exponent - fraction.length }, rest)

def number : List Char → Option (Decimal × List Char)
  | '-' :: rest => unsigned true rest
  | cs => unsigned false cs

-- ---------------------------------------------------------------------------
-- Values
-- ---------------------------------------------------------------------------

/-- The rest of the text after a word. -/
def word (w : String) (cs : List Char) : Option (List Char) :=
  if w.toList.isPrefixOf cs then some (cs.drop w.length) else none

mutual

/-- One value, blanks before it skipped. -/
def value : (fuel : Nat) → List Char → Option (Value × List Char)
  | 0, _ => none
  | fuel + 1, cs =>
    match skipSpace cs with
    | '"' :: rest => (string fuel rest).map fun (s, rest) => (.string s, rest)
    | '[' :: rest =>
      match skipSpace rest with
      | ']' :: rest => some (.array [], rest)
      | rest => (elements fuel rest).map fun (vs, rest) => (.array vs, rest)
    | '\x7b' :: rest =>
      match skipSpace rest with
      | '\x7d' :: rest => some (.object [], rest)
      | rest => (members fuel rest).map fun (ms, rest) => (.object ms, rest)
    | 'n' :: rest => (word "ull" rest).map (.null, ·)
    | 't' :: rest => (word "rue" rest).map (.bool true, ·)
    | 'f' :: rest => (word "alse" rest).map (.bool false, ·)
    | cs => (number cs).map fun (n, rest) => (.number n, rest)

/-- Values up to the closing bracket, at least one. -/
def elements : (fuel : Nat) → List Char → Option (List Value × List Char)
  | 0, _ => none
  | fuel + 1, cs => do
    let (v, rest) ← value fuel cs
    match skipSpace rest with
    | ']' :: rest => return ([v], rest)
    | ',' :: rest =>
      let (vs, rest) ← elements fuel rest
      return (v :: vs, rest)
    | _ => none

/-- Members up to the closing brace, at least one. -/
def members : (fuel : Nat) → List Char → Option (List (Text × Value) × List Char)
  | 0, _ => none
  | fuel + 1, cs => do
    let (name, rest) ← string fuel (← expect '"' cs)
    let (v, rest) ← value fuel (← expect ':' rest)
    match skipSpace rest with
    | '\x7d' :: rest => return ([(name, v)], rest)
    | ',' :: rest =>
      let (ms, rest) ← members fuel rest
      return ((name, v) :: ms, rest)
    | _ => none

end

end Reader

/-- The value that a text holds, if it is a JSON document. -/
def read? (s : String) : Option Value :=
  let cs := s.toList
  match Reader.value (2 * cs.length + 1) cs with
  | some (v, rest) => if (Reader.skipSpace rest).isEmpty then some v else none
  | none => none

end ServerFractions.Json

import ServerFractions.Text.Hex
import ServerFractions.Toml.Value

/-!
# Unquoted values

Booleans, numbers, dates and times. A value is told apart by its whole text:
each reader here either accepts all of it or refuses.
-/

namespace ServerFractions.Toml.Scalar

-- ---------------------------------------------------------------------------
-- Numbers
-- ---------------------------------------------------------------------------

/-- The digits of a number without the underscores in it. Every underscore has
to stand between two digits. -/
def withoutUnderscores? (isDigit : Char → Bool) : List Char → Option (List Char)
  | [] => none
  | [c] => if isDigit c then some [c] else none
  | c :: '_' :: rest =>
    if isDigit c then (withoutUnderscores? isDigit rest).map (c :: ·) else none
  | c :: rest => if isDigit c then (withoutUnderscores? isDigit rest).map (c :: ·) else none

/-- Decimal digits, underscores taken out. -/
def digits? : List Char → Option (List Char) :=
  withoutUnderscores? Char.isDigit

/-- Decimal digits without a leading zero, unless it stands alone. -/
def wholeDigits? (cs : List Char) : Option (List Char) :=
  match cs with
  | '0' :: _ :: _ => none
  | cs => digits? cs

def signed : List Char → Bool × List Char
  | '+' :: rest => (false, rest)
  | '-' :: rest => (true, rest)
  | cs => (false, cs)

def based? (base : Nat) (cs : List Char) : Option Value :=
  (withoutUnderscores? (fun c => (Text.hexValue? c).any (· < base)) cs).bind fun ds =>
    (Text.digitsValue? base ds).map fun n => .integer n

def integer? (cs : List Char) : Option Value :=
  match cs with
  | '0' :: 'x' :: rest => based? 16 rest
  | '0' :: 'o' :: rest => based? 8 rest
  | '0' :: 'b' :: rest => based? 2 rest
  | cs =>
    let (negative, rest) := signed cs
    (wholeDigits? rest).map fun ds =>
      .integer (if negative then -(Decimal.ofDigits ds : Int) else Decimal.ofDigits ds)

/-- The exponent after its mark. -/
def exponent? (cs : List Char) : Option Int :=
  let (negative, rest) := signed cs
  (digits? rest).map fun ds => if negative then -(Decimal.ofDigits ds : Int) else Decimal.ofDigits ds

/-- The part of a number before its exponent: whole digits and, behind a point,
more digits. -/
def mantissa? (cs : List Char) : Option (List Char × List Char) :=
  match cs.span (· != '.') with
  | (whole, []) => (wholeDigits? whole).map (·, [])
  | (whole, _ :: fraction) => do return (← wholeDigits? whole, ← digits? fraction)

def decimal? (cs : List Char) : Option Value := do
  let (negative, rest) := signed cs
  let (mantissa, tail) := rest.span fun c => c != 'e' && c != 'E'
  let (whole, fraction) ← mantissa? mantissa
  let exponent ← match tail with
    | [] => if fraction.isEmpty then none else some 0
    | _ :: tail => exponent? tail
  return .decimal { negative, significand := Decimal.ofDigits (whole ++ fraction),
                    exponent := exponent - fraction.length }

def special? (cs : List Char) : Option Value :=
  let (negative, rest) := signed cs
  if rest = "inf".toList then some (.infinity negative)
  else if rest = "nan".toList then some .notANumber
  else none

-- ---------------------------------------------------------------------------
-- Dates and times
-- ---------------------------------------------------------------------------

def two? : List Char → Option (Nat × List Char)
  | a :: b :: rest =>
    if a.isDigit && b.isDigit then some (Decimal.ofDigits [a, b], rest) else none
  | _ => none

def after? (c : Char) : List Char → Option (List Char)
  | d :: rest => if d = c then some rest else none
  | [] => none

def isLeapYear (year : Nat) : Bool :=
  year % 4 = 0 && (year % 100 != 0 || year % 400 = 0)

def daysIn (year month : Nat) : Nat :=
  match month with
  | 2 => if isLeapYear year then 29 else 28
  | 4 | 6 | 9 | 11 => 30
  | _ => 31

def afterDate? (cs : List Char) : Option (List Char) := do
  let (century, rest) ← two? cs
  let (year, rest) ← two? rest
  let (month, rest) ← two? (← after? '-' rest)
  let (day, rest) ← two? (← after? '-' rest)
  if 1 ≤ month && month ≤ 12 && 1 ≤ day && day ≤ daysIn (100 * century + year) month then
    some rest
  else none

/-- What follows the seconds of a time, which may be missing. -/
def afterSeconds? (cs : List Char) : Option (List Char) :=
  match cs with
  | ':' :: rest => do
    let (second, rest) ← two? rest
    if 60 < second then none
    match rest with
    | '.' :: fraction =>
      if fraction.head?.any Char.isDigit then some (fraction.dropWhile Char.isDigit) else none
    | rest => some rest
  | cs => some cs

def afterTime? (cs : List Char) : Option (List Char) := do
  let (hour, rest) ← two? cs
  let (minute, rest) ← two? (← after? ':' rest)
  if hour < 24 && minute < 60 then afterSeconds? rest else none

/-- Whether a text is nothing or the distance of a time from that of the zero
meridian. -/
def isOffset : List Char → Bool
  | [] | ['Z'] | ['z'] => true
  | c :: rest =>
    (c = '+' || c = '-') && Option.isSome do
      let (hours, rest) ← two? rest
      let (minutes, rest) ← two? (← after? ':' rest)
      if rest.isEmpty && minutes < 60 && hours * 60 + minutes ≤ 24 * 60 then some () else none

/-- Whether a text is a date, a time, or both. -/
def isMoment (cs : List Char) : Bool :=
  match afterDate? cs with
  | some [] => true
  | some (c :: rest) =>
    (c = 'T' || c = 't' || c = ' ') && (afterTime? rest).any isOffset
  | none => (afterTime? cs).any (·.isEmpty)

/-- Whether a text has the form of a date, which may go on after a blank. -/
def isDateShaped : List Char → Bool
  | [a, b, c, d, '-', e, f, '-', g, h] => [a, b, c, d, e, f, g, h].all Char.isDigit
  | _ => false

-- ---------------------------------------------------------------------------
-- Any value
-- ---------------------------------------------------------------------------

def value? (cs : List Char) : Option Value :=
  if cs = "true".toList then some (.boolean true)
  else if cs = "false".toList then some (.boolean false)
  else if isMoment cs then some (.moment (String.ofList cs))
  else ((special? cs).or (integer? cs)).or (decimal? cs)

end ServerFractions.Toml.Scalar

import ServerFractions.Json.Value

/-!
# Writing JSON

Documents are written with one member or element per line, two blanks of
indentation for each level, and no line break inside an empty container. Only
quotes, backslashes and control characters are escaped. Text without
characters is written as half of a surrogate pair, so that reading gives the
same value again.
-/

namespace ServerFractions.Json

/-- The hexadecimal digit of a number below sixteen. -/
def hexDigit (n : Nat) : Char :=
  if n < 10 then Char.ofNat (48 + n) else Char.ofNat (87 + n)

def escape (c : Char) : List Char :=
  if c = '"' then ['\\', '"']
  else if c = '\\' then ['\\', '\\']
  else if c = '\n' then ['\\', 'n']
  else if c = '\r' then ['\\', 'r']
  else if c = '\t' then ['\\', 't']
  else if c = '\x08' then ['\\', 'b']
  else if c = '\x0c' then ['\\', 'f']
  else if c.toNat < 32 then
    ['\\', 'u', '0', '0', hexDigit (c.toNat / 16), hexDigit (c.toNat % 16)]
  else [c]

def Text.chars : Text → List Char
  | some s => '"' :: s.toList.flatMap escape ++ ['"']
  | none => "\"\\ud800\"".toList

def numberChars (n : Decimal) : List Char :=
  (if n.negative then ['-'] else []) ++ Nat.toDigits 10 n.significand ++
    match n.exponent with
    | .ofNat 0 => []
    | .ofNat e => 'e' :: Nat.toDigits 10 e
    | .negSucc e => 'e' :: '-' :: Nat.toDigits 10 (e + 1)

def newline (level : Nat) : List Char :=
  '\n' :: List.replicate (2 * level) ' '

namespace Value

mutual

/-- A value whose first line is already begun, at a level of nesting. -/
def chars (level : Nat) : Value → List Char
  | .null => "null".toList
  | .bool true => "true".toList
  | .bool false => "false".toList
  | .number n => numberChars n
  | .string s => Text.chars s
  | .array [] => ['[', ']']
  | .array (v :: vs) =>
    '[' :: newline (level + 1) ++ v.chars (level + 1) ++ elementChars (level + 1) vs ++
      newline level ++ [']']
  | .object [] => ['\x7b', '\x7d']
  | .object ((name, v) :: ms) =>
    '\x7b' :: newline (level + 1) ++ Text.chars name ++ [':', ' '] ++ v.chars (level + 1) ++
      memberChars (level + 1) ms ++ newline level ++ ['\x7d']

/-- The elements after the first one. -/
def elementChars (level : Nat) : List Value → List Char
  | [] => []
  | v :: vs => ',' :: newline level ++ v.chars level ++ elementChars level vs

/-- The members after the first one. -/
def memberChars (level : Nat) : List (Text × Value) → List Char
  | [] => []
  | (name, v) :: ms =>
    ',' :: newline level ++ Text.chars name ++ [':', ' '] ++ v.chars level ++
      memberChars level ms

end

def render (v : Value) : String :=
  String.ofList (v.chars 0)

end Value

end ServerFractions.Json

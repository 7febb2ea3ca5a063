import ServerFractions.Decimal

/-!
# JSON values

Numbers are kept as they are written. Text may hold escapes that name half of
a surrogate pair; such text has no characters to stand for it and is kept as
`none`.
-/

namespace ServerFractions.Json

/-- A string of a document; `none` when its escapes name half of a surrogate
pair. -/
abbrev Text := Option String

inductive Value where
  | null
  | bool (b : Bool)
  | number (n : Decimal)
  | string (s : Text)
  | array (elements : List Value)
  | object (members : List (Text × Value))
  deriving Repr, Inhabited

namespace Value

def natural (n : Nat) : Value := .number { significand := n }

/-- Well-formed text. -/
def text (s : String) : Value := .string (some s)

/-- An object with well-formed names. -/
def record (members : List (String × Value)) : Value :=
  .object (members.map fun (name, v) => (some name, v))

mutual

/-- Whether a value holds only well-formed text and finite numbers, in at most
`levels` levels of arrays and objects. -/
def isPlain (levels : Nat) : Value → Bool
  | .null | .bool _ => true
  | .number n => n.isFinite
  | .string s => s.isSome
  | .array vs => 0 < levels && arePlain (levels - 1) vs
  | .object ms => 0 < levels && membersPlain (levels - 1) ms

def arePlain (levels : Nat) : List Value → Bool
  | [] => true
  | v :: vs => v.isPlain levels && arePlain levels vs

def membersPlain (levels : Nat) : List (Text × Value) → Bool
  | [] => true
  | (name, v) :: ms => name.isSome && v.isPlain levels && membersPlain levels ms

end

end Value

end ServerFractions.Json

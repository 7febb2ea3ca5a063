import ServerFractions.Decimal

/-!
# TOML values

The values that a TOML document holds. Dates and times are checked when they
are read and kept as they are written.
-/

namespace ServerFractions.Toml

inductive Value where
  | string (s : String)
  | integer (n : Int)
  | decimal (d : Decimal)
  | infinity (negative : Bool)
  | notANumber
  | boolean (b : Bool)
  | moment (text : String)
  | array (elements : List Value)
  | table (members : List (String × Value))
  deriving Repr, Inhabited

namespace Value

mutual

/-- Whether all numbers in a value are in range: whole numbers fit into 128
bits and other numbers are finite, unless written as infinity. -/
def inRange : Value → Bool
  | .integer n => fitsWord 128 n
  | .decimal d => d.isFinite
  | .array vs => allInRange vs
  | .table ms => membersInRange ms
  | _ => true

def allInRange : List Value → Bool
  | [] => true
  | v :: vs => v.inRange && allInRange vs

def membersInRange : List (String × Value) → Bool
  | [] => true
  | (_, v) :: ms => v.inRange && membersInRange ms

end

def asText? : Value → Option String
  | .string s => some s
  | _ => none

end Value

end ServerFractions.Toml

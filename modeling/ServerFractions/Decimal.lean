/-!
# Decimal numbers

Numbers of documents are kept as they are written, as a whole number with a
decimal exponent. What is asked of them is only whether they have a finite
binary64 value, and of whole numbers whether they fit into words. Both are
decided exactly.
-/

namespace ServerFractions

/-- The number `± significand · 10 ^ exponent`. -/
structure Decimal where
  negative : Bool := false
  significand : Nat
  exponent : Int := 0
  deriving DecidableEq, Repr, Inhabited

namespace Decimal

/-- The number of decimal digits of the largest finite binary64 values. -/
def digitLimit : Nat := 309

/-- The least whole number that rounds to infinity in binary64. -/
def overflow : Nat := Nat.pow 2 1024 - Nat.pow 2 970

/-- Whether a number has a finite binary64 value. Numbers of fewer digits than
the limit always have one, numbers of more digits never. -/
def isFinite (n : Decimal) : Bool :=
  let digits : Int := (Nat.toDigits 10 n.significand).length + n.exponent
  if n.significand = 0 || digits < digitLimit then true
  else if digits > digitLimit then false
  else n.significand * Nat.pow 10 n.exponent.toNat < overflow * Nat.pow 10 (-n.exponent).toNat

/-- The value of decimal digits, the first one the most significant. -/
def ofDigits (digits : List Char) : Nat :=
  digits.foldl (fun n c => 10 * n + (c.toNat - 48)) 0

theorem ofDigits_toDigits {n : Nat} : ofDigits (Nat.toDigits 10 n) = n :=
  Nat.ofDigitChars_ten_toDigits

end Decimal

/-- Whether a whole number fits into a word, with or without a sign. -/
def fitsWord (bits : Nat) (n : Int) : Bool :=
  -Int.ofNat (Nat.pow 2 (bits - 1)) ≤ n && n < Int.ofNat (Nat.pow 2 bits)

example : fitsWord 64 (-9223372036854775808) ∧ ¬ fitsWord 64 18446744073709551616 := by decide

end ServerFractions

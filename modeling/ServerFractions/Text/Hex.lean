/-!
# Numerals

Digits of the bases that document formats use, all within ASCII.
-/

namespace ServerFractions.Text

/-- The value of a hexadecimal digit, in either case. -/
def hexValue? (c : Char) : Option Nat :=
  if '0' ≤ c ∧ c ≤ '9' then some (c.toNat - 48)
  else if 'a' ≤ c ∧ c ≤ 'f' then some (c.toNat - 87)
  else if 'A' ≤ c ∧ c ≤ 'F' then some (c.toNat - 55)
  else none

/-- The value of digits in a base up to sixteen, the first one the most
significant; `none` if one of them is not a digit of the base. -/
def digitsValue? (base : Nat) (digits : List Char) : Option Nat :=
  digits.foldlM (fun n c => ((hexValue? c).filter (· < base)).map (base * n + ·)) 0

/-- The character of a code point that has one. -/
def charOf? (n : Nat) : Option Char :=
  if h : n.isValidChar then some (Char.ofNatAux n h) else none

end ServerFractions.Text

import SourceMachine.Number.Binary

/-!
# Reading numbers

Digits in a base, and the float that a decimal literal stands for.
-/

namespace SourceMachine.Number

/-- The value of a digit in a base of at most thirty-six; letters of either case
    follow the ten digits. -/
def digit? (base : Nat) (c : Char) : Option Nat :=
  let value? :=
    if '0' ≤ c ∧ c ≤ '9' then some (c.toNat - '0'.toNat)
    else if 'a' ≤ c ∧ c ≤ 'z' then some (c.toNat - 'a'.toNat + 10)
    else if 'A' ≤ c ∧ c ≤ 'Z' then some (c.toNat - 'A'.toNat + 10)
    else none
  value?.filter (· < base)

/-- Whether a character is a digit in a base. -/
def isDigit (base : Nat) (c : Char) : Bool :=
  (digit? base c).isSome

/-- The number that digits in a base spell; other characters count nothing. -/
def ofDigits (base : Nat) (digits : List Char) : Nat :=
  digits.foldl (fun n c => base * n + (digit? base c).getD 0) 0

/-- The float nearest to `digits * 10 ^ exponent`.  An exponent far out of range
    decides the result before any power of ten is computed. -/
def ofDecimal (digits : Nat) (exponent : Int) : Float :=
  let size : Int := (Nat.toDigits 10 digits).length
  if digits = 0 ∨ size + exponent < -330 then ofRatio false 0 1
  else if 310 < size + exponent then Float.ofBits infinityBits.toUInt64
  else ofRatio false (digits * tenPow exponent.toNat) (tenPow (-exponent).toNat)

end SourceMachine.Number

import SourceMachine.Number.Power

/-!
# Binary numbers: floats as exact fractions

A finite 64-bit float is an integer times a power of two.  `decode` takes a
float apart into that form and `ofRatio` finds the float nearest to a fraction,
so that every exact rule of the language about numbers (reading a decimal,
writing the fewest digits, taking a remainder) is said with natural numbers
and turned into a float once, at the end.
-/

namespace SourceMachine.Number

/-- The finite number `±mantissa * 2 ^ exponent`, with `mantissa < 2 ^ 53` and
    `exponent ≥ -1074`. -/
structure Binary where
  negative : Bool
  mantissa : Nat
  exponent : Int
deriving DecidableEq, Repr

/-- A float taken apart. -/
inductive Decoded where
  | notANumber
  | infinite (negative : Bool)
  | finite (value : Binary)
deriving DecidableEq, Repr

/-- The smallest exponent of two that a finite float can have. -/
def minExponent : Int := -1074

/-- Take a float apart by its sign bit, its eleven exponent bits and its
    fifty-two fraction bits. -/
def decode (x : Float) : Decoded :=
  let bits := x.toBits.toNat
  let negative := decide (twoPow 63 ≤ bits)
  let exponent : Nat := bits / twoPow 52 % 2048
  let fraction : Nat := bits % twoPow 52
  if exponent = 2047 then
    if fraction = 0 then .infinite negative else .notANumber
  else if exponent = 0 then
    .finite ⟨negative, fraction, minExponent⟩
  else
    .finite ⟨negative, twoPow 52 + fraction, minExponent + (exponent - 1 : Nat)⟩

/-- The quotient rounded to the nearest integer, a half going to the even
    neighbour. -/
def roundDiv (num den : Nat) : Nat :=
  let q := num / den
  let r := num % den
  if 2 * r < den then q
  else if den < 2 * r then q + 1
  else if q % 2 = 0 then q
  else q + 1

/-- The bits of positive infinity. -/
def infinityBits : Nat := 2047 * twoPow 52

/-- `num / (den * 2 ^ e)` as a pair of natural numbers. -/
def scaleDown (num den : Nat) (e : Int) : Nat × Nat :=
  if 0 ≤ e then (num, den * twoPow e.toNat) else (num * twoPow (-e).toNat, den)

/-- The exponent that gives the float nearest to `num / den` its fifty-three
    significant bits, or the smallest one where there are fewer. -/
def ratioExponent (num den : Nat) : Int :=
  let guess : Int := (Nat.log2 num : Int) - Nat.log2 den - 52
  let (n, d) := scaleDown num den guess
  let exact := if n < d * twoPow 52 then guess - 1 else guess
  if exact < minExponent then minExponent else exact

/-- The bits of the non-negative float nearest to `num / den`, a half going to
    the even neighbour and a number too large going to infinity. -/
def ratioBits (num den : Nat) : Nat :=
  if num = 0 then 0
  else
    let e := ratioExponent num den
    let (n, d) := scaleDown num den e
    let m := roundDiv n d
    let bits :=
      if m < twoPow 52 then m else (e - minExponent + 1).toNat * twoPow 52 + (m - twoPow 52)
    if bits < infinityBits then bits else infinityBits

/-- The float nearest to `±num / den`. -/
def ofRatio (negative : Bool) (num den : Nat) : Float :=
  Float.ofBits ((if negative then twoPow 63 else 0) + ratioBits num den).toUInt64

/-- The float nearest to an integer. -/
def ofInt (n : Int) : Float :=
  ofRatio (decide (n < 0)) n.natAbs 1

/-- The float nearest to a natural number. -/
def ofNat (n : Nat) : Float :=
  ofRatio false n 1

end SourceMachine.Number

import SourceMachine.Number.Arithmetic

/-!
# Decimal logarithms

The float nearest to a decimal logarithm.  Logarithms are computed in units of
`2 ^ -240` by the series of the inverse hyperbolic tangent, which leaves many more
exact bits than a float has.
-/

namespace SourceMachine.Number

/-- How many bits stand after the point. -/
def fractionBits : Nat := 240

/-- The sum of `terms` more terms of the series of the inverse hyperbolic tangent
    of `z`, when `power` is the next odd power of `z` and `odd` its exponent. -/
def artanhTerms (z : Nat) : (terms power odd : Nat) → Nat
  | 0, _, _ => 0
  | terms + 1, power, odd =>
    let next := power * z / twoPow fractionBits * z / twoPow fractionBits
    power / odd + artanhTerms z terms next (odd + 2)

/-- The inverse hyperbolic tangent of `num / den`, which is at most a third. -/
def artanh (num den : Nat) : Nat :=
  let z := num * twoPow fractionBits / den
  artanhTerms z 80 z 1

/-- The natural logarithm of two. -/
def logTwo : Nat := 2 * artanh 1 3

/-- The natural logarithm of `mantissa * 2 ^ exponent`.  The mantissa is divided by
    the largest power of two in it, which leaves a number from one up to two. -/
def naturalLog (mantissa : Nat) (exponent : Int) : Int :=
  let top := Nat.log2 mantissa
  2 * artanh (mantissa - twoPow top) (mantissa + twoPow top) + (exponent + top) * logTwo

/-- The float nearest to the decimal logarithm of a positive number. -/
def Binary.decimalLog (x : Binary) : Float :=
  let log := naturalLog x.mantissa x.exponent
  ofRatio (decide (log < 0)) log.natAbs (naturalLog 10 0).toNat

/-- The float nearest to the decimal logarithm. -/
def decimalLog (x : Float) : Float :=
  match decode x with
  | .finite b =>
    if b.mantissa = 0 then -infinity else if b.negative then notANumber else b.decimalLog
  | .infinite negative => if negative then notANumber else x
  | .notANumber => x

end SourceMachine.Number

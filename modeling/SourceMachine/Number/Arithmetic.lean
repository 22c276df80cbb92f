import SourceMachine.Number.Binary

/-!
# Arithmetic beyond the four operations

The remainder is exact: it is computed on the integers that two floats are
multiples of, and needs no rounding.
-/

namespace SourceMachine.Number

/-- The float that is not a number. -/
def notANumber : Float := 0.0 / 0.0

/-- Positive infinity. -/
def infinity : Float := 1.0 / 0.0

/-- The remainder of `a` after taking `b` off as often as it fits, in units that
    divide both. -/
def Binary.rem (a b : Binary) : Float :=
  let unit := min a.exponent b.exponent
  let scale (x : Binary) : Nat := x.mantissa * twoPow (x.exponent - unit).toNat
  let r := scale a % scale b
  ofRatio a.negative (r * twoPow unit.toNat) (twoPow (-unit).toNat)

/-- The remainder of a division toward zero.  It has the sign of the dividend;
    there is none of an infinite dividend or for a zero divisor. -/
def remainder (x y : Float) : Float :=
  match decode x, decode y with
  | .finite a, .finite b => if b.mantissa = 0 then notANumber else a.rem b
  | .finite _, .infinite _ => x
  | _, _ => notANumber

/-- The whole part, toward zero. -/
def truncate (x : Float) : Float :=
  if x < 0 then x.ceil else x.floor

/-- Whether a number is finite and whole. -/
def isWhole (x : Float) : Bool :=
  x - truncate x == 0

/-- The nearest whole number, a half going up. -/
def roundHalfUp (x : Float) : Float :=
  if x.isFinite then (x + 0.5).floor else x

/-- One with the sign of the number; zeros and what is not a number stay. -/
def sign (x : Float) : Float :=
  if x.isNaN || x == 0 then x else if 0 < x then 1 else -1

/-- The smaller number, the second of two equal ones: that decides which zero is
    kept. -/
def smaller (x y : Float) : Float :=
  if x < y then x else y

/-- The larger number, the second of two equal ones. -/
def larger (x y : Float) : Float :=
  if y < x then x else y

end SourceMachine.Number

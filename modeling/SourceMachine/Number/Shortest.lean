import SourceMachine.Number.Binary

/-!
# Shortest decimals

Every real number in an interval around a float reads back as that float.
`shortest` finds, among the decimals in that interval, one with the fewest
digits, and of those the one nearest to the float.  The search looks at the
float's two neighbours on the grid of one-digit decimals, then of two-digit
decimals and so on: if any point of a grid lies in the interval, one of those
two neighbours does.
-/

namespace SourceMachine.Number

/-- The decimal `digits * 10 ^ exponent`. -/
structure Decimal where
  digits : Nat
  exponent : Int
deriving DecidableEq, Repr

/-- Where to go when two shortest decimals are equally near. -/
inductive Tie where
  | up
  | toEven
deriving DecidableEq, Repr

/-- The reals that round to a float, all over one denominator: the float itself
    and the two ends, which belong to the interval when `closed` is true. -/
structure Interval where
  low : Nat
  value : Nat
  high : Nat
  den : Nat
  closed : Bool
deriving DecidableEq, Repr

/-- The interval of `mantissa * 2 ^ exponent`.  Below a power of two the floats
    stand twice as close, so there the lower end is half as far away. -/
def interval (mantissa : Nat) (exponent : Int) : Interval :=
  let below := if mantissa = twoPow 52 ∧ minExponent < exponent then 1 else 2
  let quarter := exponent - 2
  let up := twoPow quarter.toNat
  { low := (4 * mantissa - below) * up
    value := 4 * mantissa * up
    high := (4 * mantissa + 2) * up
    den := twoPow (-quarter).toNat
    closed := mantissa % 2 = 0 }

/-- Whether the fraction `num / den` lies in the interval. -/
def Interval.contains (i : Interval) (num den : Nat) : Bool :=
  if i.closed then i.low * den ≤ num * i.den && num * i.den ≤ i.high * den
  else i.low * den < num * i.den && num * i.den < i.high * den

/-- A power of ten as a numerator and a denominator. -/
def powTen (e : Int) : Nat × Nat :=
  (tenPow e.toNat, tenPow (-e).toNat)

/-- Whether `10 ^ e` is at most `num / den`. -/
def powTenLe (e : Int) (num den : Nat) : Bool :=
  (powTen e).1 * den ≤ num * (powTen e).2

/-- Raise `e` while the next power of ten is still at most `num / den`, at most
    `steps` times. -/
def raisePowTen (num den : Nat) : Nat → Int → Int
  | 0, e => e
  | steps + 1, e => if powTenLe (e + 1) num den then raisePowTen num den steps (e + 1) else e

/-- The exponent of the first decimal digit of `num / den`.  The guess from the
    binary logarithms is at most two too small once one is taken off. -/
def leadingExponent (num den : Nat) : Int :=
  let bits : Int := (Nat.log2 num : Int) - Nat.log2 den
  raisePowTen num den 4 (bits * 30103 / 100000 - 2)

/-- The neighbour of the interval's value on the grid `10 ^ exponent` that lies
    in the interval, the nearer one when both do. -/
def gridPoint? (i : Interval) (tie : Tie) (exponent : Int) : Option Nat :=
  let (up, down) := powTen exponent
  let num := i.value * down
  let den := i.den * up
  let c := num / den
  let rest := num % den
  let lower := i.contains (c * up) down
  let upper := i.contains ((c + 1) * up) down
  match lower, upper with
  | false, false => none
  | true, false => some c
  | false, true => some (c + 1)
  | true, true =>
    if 2 * rest < den then some c
    else if den < 2 * rest then some (c + 1)
    else match tie with
      | .up => some (c + 1)
      | .toEven => if c % 2 = 0 then some c else some (c + 1)

/-- The first grid with a point in the interval, going from coarse to fine. -/
def firstGridPoint (i : Interval) (tie : Tie) : Nat → Int → Decimal
  | 0, exponent => ⟨i.value * (powTen exponent).2 / (i.den * (powTen exponent).1), exponent⟩
  | grids + 1, exponent =>
    match gridPoint? i tie exponent with
    | some c => ⟨c, exponent⟩
    | none => firstGridPoint i tie grids (exponent - 1)

/-- The same decimal without the zeros at the end of its digits, at most `steps`
    of them. -/
def Decimal.dropZeros : Nat → Decimal → Decimal
  | 0, d => d
  | steps + 1, d =>
    if d.digits % 10 = 0 ∧ d.digits ≠ 0 then dropZeros steps ⟨d.digits / 10, d.exponent + 1⟩ else d

/-- The decimal with the fewest digits that reads back as
    `mantissa * 2 ^ exponent`.  Seventeen digits are always enough. -/
def shortest (tie : Tie) (mantissa : Nat) (exponent : Int) : Decimal :=
  let i := interval mantissa exponent
  (firstGridPoint i tie 17 (leadingExponent i.value i.den)).dropZeros 18

end SourceMachine.Number

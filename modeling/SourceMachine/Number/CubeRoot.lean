import SourceMachine.Number.Binary

/-!
# Cube roots

The float nearest to a cube root.  The root of a large integer multiple is found bit
by bit, and one more bit says whether something was cut off, so that rounding
decides as it would on the exact root.
-/

namespace SourceMachine.Number

/-- The third power. -/
def cube (n : Nat) : Nat := n * n * n

/-- The largest number whose cube is at most `n`, among those that add a number
    below `2 ^ bits` to `root`. -/
def cubeRootFrom (n : Nat) : (bits root : Nat) → Nat
  | 0, root => root
  | bits + 1, root =>
    let next := root + twoPow bits
    cubeRootFrom n bits (if cube next ≤ n then next else root)

/-- The largest number whose cube is at most `n`. -/
def floorCubeRoot (n : Nat) : Nat :=
  cubeRootFrom n (Nat.log2 n / 3 + 1) 0

/-- The float nearest to the cube root of a finite number.  The power of two that is
    taken out of the root leaves at least sixty bits in it. -/
def Binary.cubeRoot (x : Binary) : Float :=
  let out : Int := (x.exponent - 180) / 3
  let n := x.mantissa * twoPow (x.exponent - 3 * out).toNat
  let root := floorCubeRoot n
  let marked := 2 * root + (if cube root = n then 0 else 1)
  ofRatio x.negative (marked * twoPow out.toNat) (2 * twoPow (-out).toNat)

/-- The float nearest to the cube root. -/
def cubeRoot (x : Float) : Float :=
  match decode x with
  | .finite b => b.cubeRoot
  | .infinite _ | .notANumber => x

end SourceMachine.Number

/-!
# Powers of two and of ten

The two bases that floats and their texts are written in.
-/

namespace SourceMachine.Number

/-- A power of two. -/
def twoPow (n : Nat) : Nat := Nat.pow 2 n

/-- A power of ten. -/
def tenPow (n : Nat) : Nat := Nat.pow 10 n

end SourceMachine.Number

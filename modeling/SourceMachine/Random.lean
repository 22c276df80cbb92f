/-!
# Random numbers

A shift-register generator: three shifts, each combined with the state by
exclusive or, permute the nonzero states, and the upper 53 bits of a state are the
digits of a number between zero and one.
-/

namespace SourceMachine

/-- A source of numbers between zero and one. -/
inductive Random where
  /-- The same number every time. -/
  | fixed (value : Float)
  /-- The generator in a state. -/
  | register (state : UInt64)

namespace Random

/-- The state that stands in for zero, which the generator would never leave. -/
def defaultState : UInt64 := 0x123456789abcdef0

/-- The generator that a seed starts. -/
def ofSeed (seed : UInt64) : Random :=
  .register (if seed = 0 then defaultState else seed)

/-- The state after this one. -/
def advance (state : UInt64) : UInt64 :=
  let a := state ^^^ (state <<< 13)
  let b := a ^^^ (a >>> 7)
  b ^^^ (b <<< 17)

/-- The upper 53 bits of a state. -/
def digits (state : UInt64) : UInt64 :=
  state >>> 11

/-- The number that a state stands for. -/
def fraction (state : UInt64) : Float :=
  (digits state).toFloat / (9007199254740992 : UInt64).toFloat

/-- The next number. -/
def next : Random → Float × Random
  | .fixed value => (value, .fixed value)
  | .register state => (fraction (advance state), .register (advance state))

end Random

end SourceMachine

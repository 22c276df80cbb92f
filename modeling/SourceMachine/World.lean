import SourceMachine.Heap.Basic
import SourceMachine.Random

/-!
# The world of a program

Everything that builtin functions can look at or change: the heap, the console,
the clock and the source of random numbers.
-/

namespace SourceMachine

/-- The lines written so far.  A muted console drops them. -/
structure Console where
  lines : Array String := #[]
  isMuted : Bool := false

/-- Write a line. -/
def Console.write (c : Console) (line : String) : Console :=
  if c.isMuted then c else { c with lines := c.lines.push line }

/-- What builtin functions work on.  The clock counts milliseconds. -/
structure World where
  heap : Heap := {}
  console : Console := {}
  clock : Int := 0
  random : Random := .ofSeed 0

end SourceMachine

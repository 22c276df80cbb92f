import SourceMachine.Primitive.Table
import SourceMachine.World

/-!
# The machine

A machine has three registers: what it works on, the scopes it works in, and the
stack of what is left to do.  Beside them it keeps the world, the scopes that outlive
their programs, and a record of the faults so far.
-/

namespace SourceMachine

/-- The state of the machine. -/
structure Machine where
  control : Option Control := none
  env : Env
  stack : Stack := .initial
  /-- The scopes of the last program that was started. -/
  outer : Env
  /-- The scopes of the programs before it, the last one first, and the global ones. -/
  earlier : List Env := []
  /-- The faults of all programs, oldest first. -/
  faults : Array Fault := #[]
  running : Bool := false
  /-- The steps of the current program. -/
  steps : Nat := 0
  /-- A deeper stack than this one ends the program. -/
  maxDepth : Nat
  /-- The preludes are still to be run before the first program. -/
  preludePending : Bool
  world : World

/-- What is chosen when a machine is made. -/
structure Settings where
  maxDepth : Nat := 100000
  prelude : Bool := true

namespace Machine

/-- A machine in whose global scope the names of a table are constants. -/
def new (settings : Settings) (table : Table) (world : World) : Machine :=
  let (global, heap) := world.heap.newScope "global" []
  { env := global
    outer := global
    maxDepth := settings.maxDepth
    preludePending := settings.prelude
    world := { world with heap := table.install global heap } }

/-- The scopes that outlive their programs: the global ones, and those of each program
    that was started, in this order. -/
def outers (m : Machine) : List Env :=
  (m.outer :: m.earlier).reverse

/-- How many scopes outlive their programs. -/
def outerCount (m : Machine) : Nat :=
  m.outers.length

/-- The result of the program: a value, when nothing is left to do with it. -/
def final? (m : Machine) : Option Value :=
  match m.control, m.stack.top? with
  | some (.value v), some .halt => some v
  | _, _ => none

/-- Put a frame on the stack. -/
def push (m : Machine) (f : Frame) : Machine :=
  { m with stack := m.stack.push f }

/-- Work on the heap. -/
@[inline] def onHeap {α : Type} (m : Machine) (f : Heap → α × Heap) : α × Machine :=
  let (a, heap) := f m.world.heap
  (a, { m with world := { m.world with heap } })

/-- Change the heap. -/
@[inline] def mapHeap (m : Machine) (f : Heap → Heap) : Machine :=
  { m with world := { m.world with heap := f m.world.heap } }

/-- Give up the current program.  What it declared stays. -/
def unwind (m : Machine) : Machine :=
  { m with env := m.outer, stack := .initial, control := none, running := false }

/-- Record a fault and give up the current program. -/
def raise (m : Machine) (f : Fault) : Machine :=
  { m with faults := m.faults.push f }.unwind

/-- Take up a program, in place of the current one. -/
def load (m : Machine) (p : Program) : Machine :=
  { m with control := some (.program p), stack := .initial, running := true, steps := 0 }

end Machine

/-- What comes of a transition: what the machine works on next, or a fault.  A
    fault, too, leaves a machine behind. -/
abbrev Move := Except Fault Control × Machine

end SourceMachine

import SourceMachine.Heap.Lists
import SourceMachine.World

/-!
# Effects

What a call of a native function comes to, once its arguments are found to be
right: a change of the world that cannot fail, and a value.
-/

namespace SourceMachine

/-- A change of the world together with a value. -/
inductive Effect where
  /-- Nothing changes. -/
  | give (value : Value)
  | write (line : String) (value : Value)
  | makePair (head tail : Value)
  | makeList (values : List Value)
  | setHead (id : PairId) (value : Value)
  | setTail (id : PairId) (value : Value)
  /-- Take a random number. -/
  | draw

/-- Make the change. -/
def Effect.perform (e : Effect) (w : World) : Value × World :=
  match e with
  | .give value => (value, w)
  | .write line value => (value, { w with console := w.console.write line })
  | .makePair head tail =>
    let (v, heap) := w.heap.newPair head tail
    (v, { w with heap })
  | .makeList values =>
    let (v, heap) := w.heap.newList values
    (v, { w with heap })
  | .setHead id value => (.undefined, { w with heap := w.heap.setHead id value })
  | .setTail id value => (.undefined, { w with heap := w.heap.setTail id value })
  | .draw =>
    let (x, random) := w.random.next
    (.number x, { w with random })

end SourceMachine

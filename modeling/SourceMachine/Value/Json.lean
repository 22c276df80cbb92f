import SourceMachine.Value.Text

/-!
# Values as JSON

Pairs become arrays of two elements, and functions the texts they are shown by.
Pairs nested too deep have no JSON text, and neither have cycles.
-/

namespace SourceMachine

/-- The deepest nesting of pairs that has a JSON text. -/
def maxJsonNesting : Nat := 1000

/-- What is said of a value without a JSON text. -/
def jsonTooDeep : String :=
  "pairs nested deeper than " ++ toString maxJsonNesting ++ " levels"

/-- The JSON text of a value that is not opened. -/
def Value.jsonLeaf (h : Heap) : Value → String
  | .undefined | .null => "null"
  | .boolean b => if b then "true" else "false"
  | .number x => Number.Layout.json.write x
  | .string s => jsonQuoted s
  | v => jsonQuoted (v.leafText h)

/-- The JSON text of a value after what was written before it, when pairs may be
    nested `room` deep. -/
def Value.jsonOnto (h : Heap) : (room : Nat) → Value → String → Except String String
  | 0, .pair _, _ => .error jsonTooDeep
  | room + 1, .pair id, out =>
    match h.pair? id with
    | none => .ok (out ++ (Value.pair id).jsonLeaf h)
    | some (head, tail) => do
      let out ← jsonOnto h room head (out ++ "[")
      let out ← jsonOnto h room tail (out ++ ",")
      return out ++ "]"
  | _, v, out => .ok (out ++ v.jsonLeaf h)

/-- The JSON text of a value, unless its pairs are nested too deep. -/
def Value.json (h : Heap) (v : Value) : Except String String :=
  v.jsonOnto h maxJsonNesting ""

end SourceMachine

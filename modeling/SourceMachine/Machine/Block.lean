import SourceMachine.Machine.Basic

/-!
# Programs and blocks

Entering a program or a block makes a scope, declares in it every name that a
statement of the body declares, and puts the statements on the stack.
-/

namespace SourceMachine

/-- The name that a statement declares, and whether it may be assigned. -/
def Stmt.declared? : Stmt → Option (Identifier × Bool)
  | .declaration kind id _ _ => some (id, kind.isMutable)
  | .function f => f.id.map (·, false)
  | _ => none

/-- Declare the names of statements in the innermost scope, up to the first one
    that is there already. -/
def Heap.hoist (h : Heap) (env : Env) : List Stmt → Except Fault Unit × Heap
  | [] => (.ok (), h)
  | s :: rest =>
    match s.declared? with
    | none => h.hoist env rest
    | some (id, isMutable) =>
      match h.declare env id isMutable with
      | (.error fault, h) => (.error fault, h)
      | (.ok (), h) => h.hoist env rest

/-- A stack on which statements wait, the first one on top. -/
def Stack.pushAll (s : Stack) (env : Env) (body : List Stmt) : Stack :=
  body.foldr (fun stmt stack => stack.push (.exec stmt env)) s

namespace Machine

/-- Run a body in a scope made for it. -/
def schedule (m : Machine) (env : Env) (body : List Stmt) : Move :=
  match m.onHeap (·.hoist env body) with
  | (.error fault, m) => (.error fault, m)
  | (.ok (), m) =>
    match body with
    | [] => (.ok (.value .undefined), { m with env })
    | first :: rest =>
      (.ok (.statement first), { m with env, stack := m.stack.pushAll env rest })

/-- Start a program, in a scope that stays for the programs after it. -/
def enterProgram (m : Machine) (p : Program) : Move :=
  let (env, m) := m.onHeap (·.newScope "programEnvironment" m.outer)
  { m with outer := env, earlier := m.outer :: m.earlier }.schedule env p.body

/-- Start a block. -/
def enterBlock (m : Machine) (b : Block) : Move :=
  let (env, m) := m.onHeap (·.newScope "blockEnvironment" m.env)
  m.schedule env b.body

end Machine

end SourceMachine

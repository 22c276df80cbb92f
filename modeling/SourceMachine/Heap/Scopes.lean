import SourceMachine.Fault
import SourceMachine.Heap.Basic

/-!
# Names in scopes

A name is looked for in one scope after the other, from the inside out, and the
first scope that has it decides.  That it is still unassigned there is a fault, and
hides what it is bound to further out.

An operation that fails leaves the heap as it is.
-/

namespace SourceMachine

namespace Heap

/-- What a name is bound to in one scope. -/
def slot? (h : Heap) (id : ScopeId) (name : String) : Option Slot :=
  match h.scope? id with
  | some scope => scope.bindings.find? name
  | none => none

/-- Bind a name in one scope. -/
def bind (h : Heap) (id : ScopeId) (name : String) (slot : Slot) : Heap :=
  { h with
    scopes := h.scopes.modify id.index fun s => { s with bindings := s.bindings.bind name slot } }

/-! ## Declarations -/

/-- Declare a name in the innermost scope, where it must be new. -/
def declare (h : Heap) (env : Env) (id : Identifier) (isMutable : Bool) :
    Except Fault Unit × Heap :=
  match env with
  | [] => (.ok (), h)
  | scope :: _ =>
    match h.slot? scope id.name with
    | some _ => (.error ⟨.redeclared id.name isMutable, id.span⟩, h)
    | none => (.ok (), h.bind scope id.name .unassigned)

/-- A declaration may only be reached while its name has no value in the innermost
    scope. -/
def checkUnassigned (h : Heap) (env : Env) (id : Identifier) (isMutable : Bool) :
    Except Fault Unit :=
  match env.head?.bind (h.slot? · id.name) with
  | some (.assigned ..) => .error ⟨.redeclared id.name isMutable, id.span⟩
  | some .unassigned | none => .ok ()

/-- Give a name a value in the innermost scope, whatever it was bound to there. -/
def define (h : Heap) (env : Env) (name : String) (value : Value) (isMutable : Bool) : Heap :=
  match env with
  | [] => h
  | scope :: _ => h.bind scope name (.assigned value isMutable)

/-! ## Uses -/

/-- The value of a name. -/
def get (h : Heap) (id : Identifier) : Env → Except Fault Value
  | [] => .error ⟨.undeclared id.name, id.span⟩
  | scope :: outer =>
    match h.slot? scope id.name with
    | some (.assigned value _) => .ok value
    | some .unassigned => .error ⟨.unassigned id.name, id.span⟩
    | none => get h id outer

/-- The scope in which a name can be assigned.  A name without a value cannot be
    assigned, even if an outer scope has the same name. -/
def assignable (h : Heap) (id : Identifier) : Env → Except Fault ScopeId
  | [] => .error ⟨.undeclared id.name, id.span⟩
  | scope :: outer =>
    match h.slot? scope id.name with
    | some (.assigned _ true) => .ok scope
    | some (.assigned _ false) => .error ⟨.constant id.name, id.span⟩
    | some .unassigned => .error ⟨.undeclared id.name, id.span⟩
    | none => assignable h id outer

/-- Change the value of a name. -/
def set (h : Heap) (id : Identifier) (value : Value) (env : Env) : Except Fault Unit × Heap :=
  match h.assignable id env with
  | .error fault => (.error fault, h)
  | .ok scope => (.ok (), h.bind scope id.name (.assigned value true))

/-- The first value of a name.  Scopes where it has none are passed over, which no
    program can tell, because the names looked up like this are not names of the
    language. -/
def lookup? (h : Heap) (name : String) : Env → Option Value
  | [] => none
  | scope :: outer =>
    match h.slot? scope name with
    | some (.assigned value _) => some value
    | some .unassigned | none => lookup? h name outer

/-! ## Looking at scopes -/

/-- The innermost scope. -/
def innermost? (h : Heap) (env : Env) : Option Scope :=
  env.head?.bind h.scope?

/-- The bindings of the innermost scope, in the order of their declaration. -/
def bindings (h : Heap) (env : Env) : Named Slot :=
  (h.innermost? env).elim [] (·.bindings)

/-- What the innermost scope is called. -/
def label (h : Heap) (env : Env) : String :=
  (h.innermost? env).elim "" (·.label)

end Heap

end SourceMachine

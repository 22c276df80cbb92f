import SourceMachine.Proofs.Heap.Keeps

/-!
# Which slots an operation changes

An operation on scopes is about some names, and the slots of all other names stay as
they are in every scope (`Heap.KeepsSlots`).  A new scope has no slots, so making one
changes none.  The hidden name of return points is bound by a call in the scope that
the call makes, and nowhere else; so over a whole run the return points of the scopes
that are there stay as they are, and so does every captured stack (`Heap.Extends`).
-/

namespace SourceMachine

variable {h h' : Heap} {env : Env} {id : ScopeId} {other : String} {result : Except Fault Unit}
  {body : List Stmt} {c : Closure} {s : Stmt}

/-- The names of parameters. -/
def paramNames (params : List Param) : List String :=
  params.map (·.id.name)

namespace Heap

/-! ## One slot -/

theorem slot?_bind_self (inside : id.index < h.scopes.size) (name : String) (slot : Slot) :
    (h.bind id name slot).slot? id name = some slot := by
  unfold slot? scope? Heap.bind
  rw [Array.getElem?_modify, if_pos rfl, Array.getElem?_eq_getElem inside]
  exact Named.find?_bind_self name slot _

theorem slot?_bind_of_name_ne {name : String} (ne : other ≠ name) (h : Heap) (id id' : ScopeId)
    (slot : Slot) : (h.bind id name slot).slot? id' other = h.slot? id' other := by
  unfold slot? scope? Heap.bind
  rw [Array.getElem?_modify]
  by_cases same : id.index = id'.index
  · rw [if_pos same]
    cases h.scopes[id'.index]? with
    | none => rfl
    | some scope => exact Named.find?_bind_of_ne ne slot scope.bindings
  · rw [if_neg same]

theorem slot?_bind_of_scope_ne {id' : ScopeId} (ne : id ≠ id') (h : Heap) (name other : String)
    (slot : Slot) : (h.bind id name slot).slot? id' other = h.slot? id' other := by
  have apart : id.index ≠ id'.index := by
    intro same
    cases id
    cases id'
    exact ne (congrArg ScopeId.mk same)
  unfold slot? scope? Heap.bind
  rw [Array.getElem?_modify, if_neg apart]

theorem slot?_of_size_le (outside : h.scopes.size ≤ id.index) (name : String) :
    h.slot? id name = none := by
  unfold slot? scope?
  rw [Array.getElem?_eq_none outside]

/-- A slot after binding a name is the new one, or was there before. -/
theorem slot?_bind_cases {id' : ScopeId} {name name' : String} {slot slot' : Slot}
    (found : (h.bind id name slot).slot? id' name' = some slot') :
    slot' = slot ∨ h.slot? id' name' = some slot' := by
  by_cases same : name' = name
  · subst same
    by_cases here : id = id'
    · subst here
      by_cases inside : id.index < h.scopes.size
      · rw [slot?_bind_self inside] at found
        exact .inl (Option.some.inj found).symm
      · have outside : (h.bind id name' slot).scopes.size ≤ id.index := by
          rw [(Keeps.bind h id name' slot).size]
          exact not_lt.1 inside
        rw [slot?_of_size_le outside] at found
        cases found
    · rw [slot?_bind_of_scope_ne here] at found
      exact .inr found
  · rw [slot?_bind_of_name_ne same] at found
    exact .inr found

/-- Reading a name looks at the slots of this name only. -/
theorem get_congr {x : Identifier} (same : ∀ id ∈ env, h'.slot? id x.name = h.slot? id x.name) :
    h'.get x env = h.get x env := by
  induction env with
  | nil => rfl
  | cons id outer ih =>
    rw [get, get, same id List.mem_cons_self]
    rw [ih fun id member => same id (List.mem_cons_of_mem _ member)]

/-! ## All slots of a name -/

/-- A name has the same slots in the second heap as in the first. -/
def KeepsSlots (name : String) (h h' : Heap) : Prop :=
  ∀ id, h'.slot? id name = h.slot? id name

namespace KeepsSlots

variable {name : String}

theorem refl (h : Heap) : h.KeepsSlots name h :=
  fun _ => rfl

theorem trans {h₁ h₂ h₃ : Heap} (a : h₁.KeepsSlots name h₂) (b : h₂.KeepsSlots name h₃) :
    h₁.KeepsSlots name h₃ :=
  fun id => (b id).trans (a id)

theorem of_scopes (same : h'.scopes = h.scopes) : h.KeepsSlots name h' := by
  intro id
  unfold slot? scope?
  rw [same]

theorem bind (ne : name ≠ other) (h : Heap) (id : ScopeId) (slot : Slot) :
    h.KeepsSlots name (h.bind id other slot) :=
  fun id' => slot?_bind_of_name_ne ne h id id' slot

theorem newScope (h : Heap) (label : String) (outer : Env) :
    h.KeepsSlots name (h.newScope label outer).2 := by
  intro id
  unfold slot? scope? Heap.newScope
  rw [Array.getElem?_push]
  by_cases last : id.index = h.scopes.size
  · rw [if_pos last, last, Array.getElem?_eq_none le_rfl]
    rfl
  · rw [if_neg last]

theorem define (ne : name ≠ other) (h : Heap) (env : Env) (v : Value) (isMutable : Bool) :
    h.KeepsSlots name (h.define env other v isMutable) := by
  cases env with
  | nil => exact refl h
  | cons scope _ => exact bind ne h _ _

theorem of_set {id : Identifier} (ne : name ≠ id.name) {v : Value}
    (changed : h.set id v env = (result, h')) : h.KeepsSlots name h' := by
  unfold Heap.set at changed
  split at changed
  · cases changed
    exact refl h
  · cases changed
    exact bind ne h _ _

theorem of_hoist (ne : name ∉ declaredNames body) (hoisted : h.hoist env body = (result, h')) :
    h.KeepsSlots name h' := by
  refine hoist_induction (P := h.KeepsSlots name) (fun h₁ id other _ member kept => ?_) (refl h)
    hoisted
  exact kept.trans (bind (ne_of_mem_of_not_mem member ne).symm h₁ id .unassigned)

theorem newListOnto (h : Heap) (tail : Value) (reversed : List Value) :
    h.KeepsSlots name (h.newListOnto tail reversed).2 := by
  induction reversed generalizing h tail with
  | nil => exact refl h
  | cons v vs ih => exact (of_scopes (h := h) rfl).trans (ih _ _)

theorem bindParams {params : List Param} (ne : name ∉ paramNames params) (h : Heap) (env : Env)
    (args : List Value) : h.KeepsSlots name (h.bindParams env params args) := by
  induction params generalizing h args with
  | nil => exact refl h
  | cons p params ih =>
    rw [paramNames, List.map_cons, List.mem_cons, not_or] at ne
    unfold Heap.bindParams
    split
    · exact ((newListOnto h .null _).trans (define ne.1 _ env _ true)).trans (ih ne.2 _ _)
    · exact (define ne.1 h env _ true).trans (ih ne.2 _ _)

theorem install {table : Table} (ne : name ∉ table.names) (env : Env) (h : Heap) :
    h.KeepsSlots name (table.install env h) := by
  unfold Table.install
  induction table generalizing h with
  | nil => exact refl h
  | cons entry rest ih =>
    rw [Named.names, List.map_cons, List.mem_cons, not_or] at ne
    exact (define ne.1 h env entry.2 false).trans (ih ne.2 _)

/-- A native function changes no slot. -/
theorem perform (e : Effect) (w : World) : w.heap.KeepsSlots name (e.perform w).2.heap := by
  cases e with
  | makeList values => exact newListOnto _ .null _
  | _ => exact of_scopes rfl

end KeepsSlots

/-! ## The slots of a call -/

/-- The scope of a call has the stack of the caller as its return point. -/
theorem slot?_enterCall_self (h : Heap) (c : Closure) (args : List Value) (caller : Captured) :
    (h.enterCall c args caller).2.slot? ⟨h.scopes.size⟩ returnPoint =
      some (.assigned (.continuation ⟨h.continuations.size⟩) false) := by
  have params := Keeps.bindParams (h.newScope c.function.displayName c.env).2
    (⟨h.scopes.size⟩ :: c.env) c.function.params args
  have size := params.size
  rw [show (h.newScope c.function.displayName c.env).2.scopes.size = h.scopes.size + 1 from
    Array.size_push _] at size
  rw [enterCall_snd]
  refine (slot?_bind_self ?_ returnPoint _).trans ?_
  · exact (Nat.lt_succ_self _).trans_eq size.symm
  · show some (Slot.assigned (.continuation ⟨Array.size _⟩) false) = _
    rw [params.continuations]
    rfl

/-- The stack of the caller is the last captured stack. -/
theorem continuation?_enterCall (h : Heap) (c : Closure) (args : List Value) (caller : Captured) :
    (h.enterCall c args caller).2.continuation? ⟨h.continuations.size⟩ = some caller := by
  rw [continuation?, (enterCall_objects h c args caller).2]
  exact Array.getElem?_push_size

/-- No other scope gets a return point from a call. -/
theorem slot?_enterCall_of_ne (unnamed : returnPoint ∉ paramNames c.function.params) (h : Heap)
    (args : List Value) (caller : Captured) (ne : id ≠ ⟨h.scopes.size⟩) :
    (h.enterCall c args caller).2.slot? id returnPoint = h.slot? id returnPoint := by
  have scope : h.KeepsSlots returnPoint _ := KeepsSlots.newScope h c.function.displayName c.env
  have params := KeepsSlots.bindParams unnamed (h.newScope c.function.displayName c.env).2
    (⟨h.scopes.size⟩ :: c.env) args
  rw [enterCall_snd]
  exact (slot?_bind_of_scope_ne ne.symm _ _ _ _).trans ((scope.trans params) id)

/-! ## What a run leaves alone -/

/-- Every scope and every captured stack of the first heap is there in the second, and
    the scopes have the same return points. -/
structure Extends (h h' : Heap) : Prop where
  size : h.scopes.size ≤ h'.scopes.size
  continuations : ∀ {id k}, h.continuation? id = some k → h'.continuation? id = some k
  points : ∀ id, id.index < h.scopes.size → h'.slot? id returnPoint = h.slot? id returnPoint

namespace Extends

theorem refl (h : Heap) : h.Extends h :=
  ⟨le_rfl, id, fun _ _ => rfl⟩

theorem trans {h₁ h₂ h₃ : Heap} (a : h₁.Extends h₂) (b : h₂.Extends h₃) : h₁.Extends h₃ := by
  refine ⟨a.size.trans b.size, fun found => b.continuations (a.continuations found), ?_⟩
  intro id inside
  exact (b.points id (inside.trans_le a.size)).trans (a.points id inside)

theorem of_keeps (kept : h.Keeps h') (slots : h.KeepsSlots returnPoint h') : h.Extends h' := by
  refine ⟨kept.size.ge, fun found => ?_, fun id _ => slots id⟩
  rw [continuation?, kept.continuations]
  exact found

theorem newScope (h : Heap) (label : String) (outer : Env) : h.Extends (h.newScope label outer).2 :=
  ⟨by simp [Heap.newScope], id, fun id _ => KeepsSlots.newScope h label outer id⟩

theorem newClosure (h : Heap) (c : Closure) : h.Extends (h.newClosure c).2 :=
  ⟨le_rfl, id, fun _ _ => rfl⟩

theorem newContinuation (h : Heap) (k : Captured) : h.Extends (h.newContinuation k).2 := by
  refine ⟨le_rfl, fun {id k'} found => ?_, fun _ _ => rfl⟩
  have inside : id.index < h.continuations.size := (Array.getElem?_eq_some_iff.1 found).1
  simpa [continuation?, Heap.newContinuation, Array.getElem?_push_lt, inside] using found

theorem enterBody {inner : Heap} {label : String} {outer : Env}
    (scope : h.newScope label outer = (env, inner)) (hoisted : inner.hoist env body = (result, h'))
    (unnamed : returnPoint ∉ declaredNames body) : h.Extends h' := by
  cases scope
  exact (newScope h label outer).trans
    (of_keeps (Keeps.of_hoist hoisted) (KeepsSlots.of_hoist unnamed hoisted))

theorem enterCall (unnamed : returnPoint ∉ paramNames c.function.params) (h : Heap)
    (args : List Value) (caller : Captured) : h.Extends (h.enterCall c args caller).2 := by
  have scope := newScope h c.function.displayName c.env
  have params := of_keeps (Keeps.bindParams (h.newScope c.function.displayName c.env).2
    (⟨h.scopes.size⟩ :: c.env) c.function.params args) (KeepsSlots.bindParams unnamed _ _ args)
  have captured := (scope.trans params).trans (newContinuation _ caller)
  refine ⟨?_, ?_, ?_⟩
  · rw [enterCall_snd]
    exact captured.size.trans_eq (Keeps.define _ _ _ _ _).size.symm
  · rw [enterCall_snd]
    exact fun found => captured.continuations found
  · intro id inside
    refine slot?_enterCall_of_ne unnamed h args caller ?_
    rintro rfl
    exact inside.false

end Extends

end Heap

end SourceMachine

import SourceMachine.Proofs.Heap.Slots

/-!
# What hoisting declares

Entering a program or a block makes a scope and declares in it the names that the
statements of the body declare.  The scope is new, so the only name that can be there
already is one of the same body: hoisting succeeds exactly when no name is declared
twice (`hoist_enters_iff`), and then every declared name is there without a value and no
other name is there (`slot?_of_enters`).

The slots of all scopes that are there before stay as they are, whether a body is
entered or a call is made (`Heap.KeepsScope`).
-/

namespace SourceMachine

variable {h h' : Heap} {result : Except Fault Unit} {body : List Stmt} {id : ScopeId}
  {name : String} {outer : Env} {slot : Slot}

namespace Heap

/-! ## All slots of a scope -/

/-- A scope has the same slots in the second heap as in the first. -/
def KeepsScope (id : ScopeId) (h h' : Heap) : Prop :=
  ∀ name, h'.slot? id name = h.slot? id name

namespace KeepsScope

variable {id other : ScopeId} {outer : Env}

theorem refl (h : Heap) : h.KeepsScope id h :=
  fun _ => rfl

theorem trans {h₁ h₂ h₃ : Heap} (a : h₁.KeepsScope id h₂) (b : h₂.KeepsScope id h₃) :
    h₁.KeepsScope id h₃ := by
  intro name
  exact (b name).trans (a name)

theorem of_scopes (same : h'.scopes = h.scopes) : h.KeepsScope id h' := by
  intro name
  exact KeepsSlots.of_scopes same id

theorem newScope (h : Heap) (label : String) (outer : Env) :
    h.KeepsScope id (h.newScope label outer).2 := by
  intro name
  exact KeepsSlots.newScope h label outer id

theorem define (ne : other ≠ id) (h : Heap) (name : String) (v : Value) (isMutable : Bool) :
    h.KeepsScope id (h.define (other :: outer) name v isMutable) := by
  intro name'
  exact slot?_bind_of_scope_ne ne h name name' _

theorem of_hoist (ne : other ≠ id) (hoisted : h.hoist (other :: outer) body = (result, h')) :
    h.KeepsScope id h' := by
  refine hoist_induction (P := h.KeepsScope id) (fun h₁ scope x first _ kept => ?_) (refl h) hoisted
  cases first
  exact kept.trans fun name => slot?_bind_of_scope_ne ne h₁ x name .unassigned

theorem newListOnto (h : Heap) (tail : Value) (reversed : List Value) :
    h.KeepsScope id (h.newListOnto tail reversed).2 := by
  intro name
  exact KeepsSlots.newListOnto h tail reversed id

theorem bindParams (ne : other ≠ id) (h : Heap) (params : List Param) (args : List Value) :
    h.KeepsScope id (h.bindParams (other :: outer) params args) := by
  induction params generalizing h args with
  | nil => exact refl h
  | cons p params ih =>
    rw [Heap.bindParams]
    split
    · exact ((newListOnto h .null _).trans (define ne _ _ _ true)).trans (ih _ _)
    · exact (define ne h _ _ true).trans (ih _ _)

theorem install (ne : other ≠ id) (table : Table) (h : Heap) :
    h.KeepsScope id (table.install (other :: outer) h) := by
  rw [Table.install]
  induction table generalizing h with
  | nil => exact refl h
  | cons entry rest ih => exact (define ne h entry.1 entry.2 false).trans (ih _)

/-- A native function changes no scope. -/
theorem perform (e : Effect) (w : World) : w.heap.KeepsScope id (e.perform w).2.heap := by
  intro name
  exact KeepsSlots.perform e w id

/-- The next address is no address of a scope that is there. -/
theorem next_ne (inside : id.index < h.scopes.size) : ⟨h.scopes.size⟩ ≠ id := by
  rintro rfl
  exact inside.false

theorem enterBody {inner : Heap} {label : String} {env : Env} (inside : id.index < h.scopes.size)
    (scope : h.newScope label outer = (env, inner))
    (hoisted : inner.hoist env body = (result, h')) : h.KeepsScope id h' := by
  cases scope
  exact (newScope h label outer).trans (of_hoist (next_ne inside) hoisted)

theorem enterCall (inside : id.index < h.scopes.size) (c : Closure) (args : List Value)
    (caller : Captured) : h.KeepsScope id (h.enterCall c args caller).2 := by
  have made : h.KeepsScope id (h.newScope c.function.displayName c.env).2 := newScope h _ _
  have bound : (h.newScope c.function.displayName c.env).2.KeepsScope id
      ((h.newScope c.function.displayName c.env).2.bindParams (⟨h.scopes.size⟩ :: c.env)
        c.function.params args) := bindParams (next_ne inside) _ _ _
  rw [enterCall_snd]
  -- capturing the caller changes no scope, and the return point goes to the new one
  exact ((made.trans bound).trans (of_scopes rfl)).trans (define (next_ne inside) _ _ _ false)

end KeepsScope

/-! ## Hoisting -/

/-- At the next address there are no slots. -/
theorem slot?_next (h : Heap) (name : String) : h.slot? ⟨h.scopes.size⟩ name = none :=
  slot?_of_size_le le_rfl name

/-- Hoisting succeeds exactly when the names are different from each other and from those
    that the scope has. -/
theorem hoist_succeeds_iff (inside : id.index < h.scopes.size) (outer : Env) (body : List Stmt) :
    (∃ h', h.hoist (id :: outer) body = (.ok (), h')) ↔
      (declaredNames body).Nodup ∧ ∀ name ∈ declaredNames body, h.slot? id name = none := by
  induction body generalizing h with
  | nil => simp [Heap.hoist, declaredNames]
  | cons s rest ih =>
    rw [Heap.hoist]
    cases declared : s.declared? with
    | none =>
      rw [declaredNames_cons_of_none declared]
      exact ih inside
    | some declaration =>
      obtain ⟨x, isMutable⟩ := declaration
      rw [declaredNames_cons_of_some declared]
      simp only [Heap.declare]
      cases slot : h.slot? id x.name with
      | some old => simp [slot]
      | none =>
        have bound : id.index < (h.bind id x.name .unassigned).scopes.size :=
          inside.trans_eq (Keeps.bind h id x.name .unassigned).size.symm
        -- the name is there from now on, so it must not come again
        have taken (name : String) :
            (h.bind id x.name .unassigned).slot? id name = none ↔
              x.name ≠ name ∧ h.slot? id name = none := by
          by_cases same : x.name = name
          · subst same
            simp [slot?_bind_self inside]
          · simp [slot?_bind_of_name_ne (Ne.symm same), same]
        rw [ih bound]
        simp only [taken, List.nodup_cons, List.mem_cons]
        constructor
        · rintro ⟨distinct, free⟩
          refine ⟨⟨fun again => (free x.name again).1 rfl, distinct⟩, ?_⟩
          rintro name (rfl | member)
          · exact slot
          · exact (free name member).2
        · rintro ⟨⟨once, distinct⟩, free⟩
          refine ⟨distinct, fun name member => ⟨?_, free name (.inr member)⟩⟩
          rintro rfl
          exact once member

/-- After hoisting, the declared names have no value. -/
theorem slot?_of_hoist (inside : id.index < h.scopes.size)
    (hoisted : h.hoist (id :: outer) body = (.ok (), h')) (member : name ∈ declaredNames body) :
    h'.slot? id name = some .unassigned := by
  induction body generalizing h with
  | nil => cases member
  | cons s rest ih =>
    rw [Heap.hoist] at hoisted
    cases declared : s.declared? with
    | none =>
      rw [declared] at hoisted
      rw [declaredNames_cons_of_none declared] at member
      exact ih inside hoisted member
    | some declaration =>
      obtain ⟨x, isMutable⟩ := declaration
      rw [declaredNames_cons_of_some declared] at member
      simp only [declared, Heap.declare] at hoisted
      cases slot : h.slot? id x.name with
      | some old =>
        rw [slot] at hoisted
        cases hoisted
      | none =>
        rw [slot] at hoisted
        have bound : id.index < (h.bind id x.name .unassigned).scopes.size :=
          inside.trans_eq (Keeps.bind h id x.name .unassigned).size.symm
        by_cases later : name ∈ declaredNames rest
        · exact ih bound hoisted later
        · -- the statements after this one leave the name alone
          obtain rfl : name = x.name := (List.mem_cons.1 member).resolve_right later
          rw [KeepsSlots.of_hoist later hoisted id]
          exact slot?_bind_self inside x.name .unassigned

/-- Hoisting gives no name a value, also when it fails. -/
theorem unassigned_of_hoist (hoisted : h.hoist (id :: outer) body = (result, h'))
    (before : ∀ name slot, h.slot? id name = some slot → slot = .unassigned) :
    ∀ name slot, h'.slot? id name = some slot → slot = .unassigned := by
  refine hoist_induction (P := fun h => ∀ name slot, h.slot? id name = some slot →
    slot = .unassigned) (fun h₁ scope x _ _ before₁ name slot found => ?_) before hoisted
  rcases slot?_bind_cases found with new | old
  · exact new
  · exact before₁ name slot old

/-! ## Entering a body -/

/-- A new scope has no names. -/
theorem slot?_newScope_next (h : Heap) (label : String) (outer : Env) (name : String) :
    (h.newScope label outer).2.slot? ⟨h.scopes.size⟩ name = none :=
  (KeepsSlots.newScope h label outer _).trans (slot?_next h name)

section Enter

variable {h inner : Heap} {label : String} {outer env : Env} {body : List Stmt}

variable (scope : h.newScope label outer = (env, inner))

include scope

/-- A body can be entered exactly when it declares no name twice. -/
theorem hoist_enters_iff :
    (∃ h', inner.hoist env body = (.ok (), h')) ↔ (declaredNames body).Nodup := by
  cases scope
  have inside : h.scopes.size < (h.newScope label outer).2.scopes.size := by
    simp [Heap.newScope]
  refine (hoist_succeeds_iff inside outer body).trans ⟨fun both => both.1, fun distinct => ?_⟩
  exact ⟨distinct, fun name _ => slot?_newScope_next h label outer name⟩

/-- A name in a scope that was just made for a body is one that the body declares. -/
theorem mem_declaredNames_of_enters (hoisted : inner.hoist env body = (result, h'))
    (found : h'.slot? ⟨h.scopes.size⟩ name = some slot) : name ∈ declaredNames body := by
  by_contra undeclared
  have made : h.KeepsSlots name (h.newScope label outer).2 := .newScope h label outer
  rw [scope] at made
  rw [(made.trans (.of_hoist undeclared hoisted)) _, slot?_next] at found
  cases found

/-- No name in a scope that was just made for a body has a value. -/
theorem unassigned_of_enters (hoisted : inner.hoist env body = (result, h'))
    (found : h'.slot? ⟨h.scopes.size⟩ name = some slot) : slot = .unassigned := by
  cases scope
  refine unassigned_of_hoist hoisted (fun name' slot' found' => ?_) name slot found
  cases (slot?_newScope_next h label outer name').symm.trans found'

/-- The slots of a scope that was just entered: the names of the body, without values. -/
theorem slot?_of_enters (hoisted : inner.hoist env body = (.ok (), h')) (name : String) :
    h'.slot? ⟨h.scopes.size⟩ name =
      if name ∈ declaredNames body then some .unassigned else none := by
  split
  · next member =>
    cases scope
    exact slot?_of_hoist (by simp) hoisted member
  · next undeclared =>
    rw [Option.eq_none_iff_forall_ne_some]
    intro slot found
    exact undeclared (mem_declaredNames_of_enters scope hoisted found)

end Enter

end Heap

end SourceMachine

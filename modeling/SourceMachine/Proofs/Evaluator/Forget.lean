import SourceMachine.Proofs.Heap.Known
import SourceMachine.Proofs.Heap.Resembles

/-!
# The heap without new return points

The machine keeps return points in the scopes of calls, and the stacks that they lead to
in its heap.  `Heap.forget` takes away those that were made after some earlier heap, and
leaves all else as it is.  Every operation that is not about the hidden name commutes with
it, and a call comes down to a new scope with its parameters (`forget_enterCall`).

Texts and native functions look at what values lead to.  They cannot tell the difference
as long as no value leads to a stack that was taken away (`Native.call_forget`).
-/

namespace SourceMachine

variable {name : String} {h : Heap} {id : Identifier} {v : Value} {args : List Value}

/-! ## Names that are kept and names that are dropped -/

namespace Named

variable {α : Type} {keep : String → Bool}

/-- The things with certain names. -/
def only (keep : String → Bool) (things : Named α) : Named α :=
  things.filter fun entry => keep entry.1

theorem only_cons_of_kept (kept : keep name = true) (thing : α) (rest : Named α) :
    only keep ((name, thing) :: rest) = (name, thing) :: only keep rest :=
  List.filter_cons_of_pos (p := fun entry : String × α => keep entry.1) kept

theorem only_cons_of_dropped (dropped : ¬keep name = true) (thing : α) (rest : Named α) :
    only keep ((name, thing) :: rest) = only keep rest :=
  List.filter_cons_of_neg (p := fun entry : String × α => keep entry.1) dropped

theorem find?_only (kept : keep name = true) (things : Named α) :
    find? name (only keep things) = find? name things := by
  induction things with
  | nil => rfl
  | cons entry rest ih =>
    obtain ⟨other, thing⟩ := entry
    by_cases same : other = name
    · subst same
      rw [only_cons_of_kept kept, find?, find?, if_pos rfl, if_pos rfl]
    · by_cases keeps : keep other = true
      · rw [only_cons_of_kept keeps, find?, find?, if_neg same, if_neg same]
        exact ih
      · rw [only_cons_of_dropped keeps, find?, if_neg same]
        exact ih

theorem find?_only_of_dropped (dropped : ¬keep name = true) (things : Named α) :
    find? name (only keep things) = none := by
  induction things with
  | nil => rfl
  | cons entry rest ih =>
    obtain ⟨other, thing⟩ := entry
    by_cases keeps : keep other = true
    · have apart : other ≠ name := by
        rintro rfl
        exact dropped keeps
      rw [only_cons_of_kept keeps, find?, if_neg apart]
      exact ih
    · rw [only_cons_of_dropped keeps]
      exact ih

theorem only_bind (kept : keep name = true) (thing : α) (things : Named α) :
    only keep (bind name thing things) = bind name thing (only keep things) := by
  induction things with
  | nil => exact only_cons_of_kept kept thing []
  | cons entry rest ih =>
    obtain ⟨other, old⟩ := entry
    by_cases same : other = name
    · subst same
      rw [bind, if_pos rfl, only_cons_of_kept kept, only_cons_of_kept kept, bind, if_pos rfl]
    · rw [bind, if_neg same]
      by_cases keeps : keep other = true
      · rw [only_cons_of_kept keeps, only_cons_of_kept keeps, bind, if_neg same, ih]
      · rw [only_cons_of_dropped keeps, only_cons_of_dropped keeps, ih]

theorem only_bind_of_dropped (dropped : ¬keep name = true) (thing : α) (things : Named α) :
    only keep (bind name thing things) = only keep things := by
  induction things with
  | nil => exact only_cons_of_dropped dropped thing []
  | cons entry rest ih =>
    obtain ⟨other, old⟩ := entry
    by_cases same : other = name
    · subst same
      rw [bind, if_pos rfl, only_cons_of_dropped dropped, only_cons_of_dropped dropped]
    · rw [bind, if_neg same]
      by_cases keeps : keep other = true
      · rw [only_cons_of_kept keeps, only_cons_of_kept keeps, ih]
      · rw [only_cons_of_dropped keeps, only_cons_of_dropped keeps, ih]

end Named

/-! ## Forgetting -/

/-- Whether a name is one of the language, which the hidden name is not. -/
def isVisible (name : String) : Bool :=
  name ≠ returnPoint

theorem isVisible_of_ne (ne : returnPoint ≠ name) : isVisible name = true :=
  decide_eq_true ne.symm

/-- A scope without its return point. -/
def Scope.visible (s : Scope) : Scope :=
  { s with bindings := Named.only isVisible s.bindings }

namespace Heap

/-- The heap without the return points that were made after an earlier one: newer scopes
    lose the hidden name, and the captured stacks are those of the earlier heap. -/
def forget (h start : Heap) : Heap :=
  { h with
    scopes := h.scopes.mapIdx fun i s => if i < start.scopes.size then s else s.visible
    continuations := start.continuations }

variable {start : Heap}

@[simp] theorem size_forget (h : Heap) : (h.forget start).scopes.size = h.scopes.size :=
  Array.size_mapIdx

theorem scope?_forget (h : Heap) (id : ScopeId) :
    (h.forget start).scope? id = (h.scope? id).map fun s =>
      if id.index < start.scopes.size then s else s.visible :=
  Array.getElem?_mapIdx

/-- Only the slots of return points are forgotten. -/
theorem slot?_forget (ne : returnPoint ≠ name) (h : Heap) (id : ScopeId) :
    (h.forget start).slot? id name = h.slot? id name := by
  rw [slot?, slot?, scope?_forget]
  cases h.scope? id with
  | none => rfl
  | some scope =>
    by_cases old : id.index < start.scopes.size
    · rw [Option.map_some, if_pos old]
    · rw [Option.map_some, if_neg old]
      exact Named.find?_only (isVisible_of_ne ne) scope.bindings

theorem slot?_forget_of_old {id : ScopeId} (old : id.index < start.scopes.size) (h : Heap)
    (name : String) : (h.forget start).slot? id name = h.slot? id name := by
  rw [slot?, slot?, scope?_forget]
  cases h.scope? id with
  | none => rfl
  | some scope => rw [Option.map_some, if_pos old]

/-- They are forgotten in all new scopes. -/
theorem slot?_forget_of_new {id : ScopeId} (new : ¬id.index < start.scopes.size) (h : Heap) :
    (h.forget start).slot? id returnPoint = none := by
  rw [slot?, scope?_forget]
  cases h.scope? id with
  | none => rfl
  | some scope =>
    rw [Option.map_some, if_neg new]
    exact Named.find?_only_of_dropped (by decide) scope.bindings

/-- Nothing is new yet. -/
theorem forget_self (h : Heap) : h.forget h = h := by
  have scopes : (h.forget h).scopes = h.scopes := by
    refine Array.ext (size_forget h) fun i _ inside => ?_
    simp only [forget, Array.getElem_mapIdx]
    exact if_pos inside
  exact congrArg (fun scopes => { h with scopes }) scopes

/-! ## Operations on scopes -/

/-- Binding any other name commutes with forgetting. -/
theorem forget_bind (ne : returnPoint ≠ name) (h : Heap) (id : ScopeId) (slot : Slot) :
    (h.bind id name slot).forget start = (h.forget start).bind id name slot := by
  have scopes : ((h.bind id name slot).forget start).scopes =
      ((h.forget start).bind id name slot).scopes := by
    refine Array.ext (by simp [Heap.bind, forget]) fun i _ _ => ?_
    simp only [Heap.bind, forget, Array.getElem_mapIdx, Array.getElem_modify]
    by_cases here : id.index = i
    · by_cases old : i < start.scopes.size
      · rw [if_pos here, if_pos here, if_pos old, if_pos old]
      · rw [if_pos here, if_pos here, if_neg old, if_neg old]
        exact congrArg (Scope.mk _) (Named.only_bind (isVisible_of_ne ne) slot _)
    · rw [if_neg here, if_neg here]
  exact congrArg (fun scopes => { h.forget start with scopes }) scopes

/-- A return point in a new scope is forgotten. -/
theorem forget_bind_returnPoint (id : ScopeId) (new : ¬id.index < start.scopes.size) (h : Heap)
    (slot : Slot) : (h.bind id returnPoint slot).forget start = h.forget start := by
  have scopes : ((h.bind id returnPoint slot).forget start).scopes = (h.forget start).scopes := by
    refine Array.ext (by simp [Heap.bind, forget]) fun i _ _ => ?_
    simp only [Heap.bind, forget, Array.getElem_mapIdx, Array.getElem_modify]
    by_cases here : id.index = i
    · rw [if_pos here, if_neg (here ▸ new), if_neg (here ▸ new)]
      exact congrArg (Scope.mk _) (Named.only_bind_of_dropped (by decide) slot _)
    · rw [if_neg here]
  exact congrArg (fun scopes => { h.forget start with scopes }) scopes

theorem forget_newScope (h : Heap) (label : String) (outer : Env) :
    (h.forget start).newScope label outer =
      ((h.newScope label outer).1, (h.newScope label outer).2.forget start) := by
  have scopes : (h.forget start).scopes.push ⟨label, []⟩ =
      ((h.newScope label outer).2.forget start).scopes := by
    refine Array.ext (by simp [Heap.newScope, forget]) fun i _ _ => ?_
    simp only [Heap.newScope, forget, Array.getElem_mapIdx, Array.getElem_push, Array.size_mapIdx]
    by_cases last : i < h.scopes.size
    · rw [dif_pos last, dif_pos last]
    · rw [dif_neg last, dif_neg last]
      by_cases old : i < start.scopes.size
      · rw [if_pos old]
      · rw [if_neg old]
        rfl
  refine Prod.ext ?_ ?_
  · show (⟨(h.forget start).scopes.size⟩ :: outer : Env) = ⟨h.scopes.size⟩ :: outer
    rw [size_forget]
  · exact congrArg (fun scopes => { h.forget start with scopes }) scopes

theorem forget_declare (ne : returnPoint ≠ id.name) (h : Heap) (env : Env) (isMutable : Bool) :
    (h.forget start).declare env id isMutable =
      ((h.declare env id isMutable).1, (h.declare env id isMutable).2.forget start) := by
  cases env with
  | nil => rfl
  | cons scope outer =>
    rw [declare, declare, slot?_forget ne]
    cases h.slot? scope id.name with
    | none => exact congrArg (Prod.mk _) (forget_bind ne h scope _).symm
    | some slot => rfl

theorem forget_define (ne : returnPoint ≠ name) (h : Heap) (env : Env) (v : Value)
    (isMutable : Bool) : (h.forget start).define env name v isMutable =
      (h.define env name v isMutable).forget start := by
  cases env with
  | nil => rfl
  | cons scope outer => exact (forget_bind ne h scope _).symm

section

variable (ne : returnPoint ≠ id.name)

include ne

theorem forget_checkUnassigned (env : Env) (isMutable : Bool) :
    (h.forget start).checkUnassigned env id isMutable = h.checkUnassigned env id isMutable := by
  cases env with
  | nil => rfl
  | cons scope outer =>
    have same : (scope :: outer).head?.bind ((h.forget start).slot? · id.name) =
        (scope :: outer).head?.bind (h.slot? · id.name) := slot?_forget ne h scope
    rw [checkUnassigned, checkUnassigned, same]

theorem forget_get (env : Env) : (h.forget start).get id env = h.get id env := by
  induction env with
  | nil => rfl
  | cons scope outer ih => rw [get, get, slot?_forget ne, ih]

theorem forget_assignable (env : Env) :
    (h.forget start).assignable id env = h.assignable id env := by
  induction env with
  | nil => rfl
  | cons scope outer ih => rw [assignable, assignable, slot?_forget ne, ih]

theorem forget_set (v : Value) (env : Env) :
    (h.forget start).set id v env =
      ((h.set id v env).1, (h.set id v env).2.forget start) := by
  rw [set, set, forget_assignable ne]
  cases h.assignable id env with
  | error fault => rfl
  | ok scope => exact congrArg (Prod.mk _) (forget_bind ne h scope _).symm

end

/-- So does hoisting, as no program declares the hidden name. -/
theorem forget_hoist {body : List Stmt} (ne : returnPoint ∉ declaredNames body) (h : Heap)
    (env : Env) : (h.forget start).hoist env body =
      ((h.hoist env body).1, (h.hoist env body).2.forget start) := by
  induction body generalizing h with
  | nil => rfl
  | cons s rest ih =>
    rw [hoist, hoist]
    cases declared : s.declared? with
    | none =>
      rw [declaredNames_cons_of_none declared] at ne
      exact ih ne h
    | some entry =>
      obtain ⟨id, isMutable⟩ := entry
      rw [declaredNames_cons_of_some declared, List.mem_cons, not_or] at ne
      dsimp only
      rw [forget_declare ne.1]
      rcases h.declare env id isMutable with ⟨_ | _, h'⟩
      · rfl
      · exact ih ne.2 h'

/-! ## Other operations -/

theorem forget_newListOnto (h : Heap) (tail : Value) (reversed : List Value) :
    (h.forget start).newListOnto tail reversed =
      ((h.newListOnto tail reversed).1, (h.newListOnto tail reversed).2.forget start) := by
  induction reversed generalizing h tail with
  | nil => rfl
  | cons v vs ih => exact ih (h.newPair v tail).2 _

theorem forget_newList (h : Heap) (values : List Value) : (h.forget start).newList values =
    ((h.newList values).1, (h.newList values).2.forget start) :=
  forget_newListOnto h .null values.reverse

theorem forget_bindParams {params : List Param} (ne : returnPoint ∉ paramNames params) (h : Heap)
    (env : Env) (args : List Value) : (h.forget start).bindParams env params args =
      (h.bindParams env params args).forget start := by
  induction params generalizing h args with
  | nil => rfl
  | cons p params ih =>
    rw [paramNames, List.map_cons, List.mem_cons, not_or] at ne
    rw [bindParams, bindParams]
    by_cases isRest : p.isRest = true
    · rw [if_pos isRest, if_pos isRest, forget_newList]
      dsimp only
      rw [forget_define ne.1]
      exact ih ne.2 _ _
    · rw [if_neg isRest, if_neg isRest, forget_define ne.1]
      exact ih ne.2 _ _

/-- Of a call, the scope and the parameters stay. -/
theorem forget_enterCall {c : Closure} (ne : returnPoint ∉ paramNames c.function.params)
    (new : start.scopes.size ≤ h.scopes.size) (args : List Value) (caller : Captured) :
    (h.enterCall c args caller).2.forget start =
      ((h.forget start).newScope c.function.displayName c.env).2.bindParams
        (⟨h.scopes.size⟩ :: c.env) c.function.params args := by
  rw [enterCall_snd, forget_newScope, forget_bindParams ne]
  exact forget_bind_returnPoint ⟨h.scopes.size⟩ (not_lt.2 new) _ _

/-! ## What values lead to -/

/-- The stacks of the earlier heap are still there. -/
theorem continuation?_forget (grown : start.Extends h) {id : ContinuationId}
    (known : id.index < start.continuations.size) :
    (h.forget start).continuation? id = h.continuation? id := by
  have found : start.continuation? id = some (start.continuations[id.index]) :=
    Array.getElem?_eq_getElem known
  exact found.trans (grown.continuations found).symm

/-- A known value leads to what it led to. -/
theorem callee?_forget (grown : start.Extends h) (known : v.IsKnown start.continuations.size) :
    (h.forget start).callee? v = h.callee? v := by
  cases v with
  | continuation id => exact congrArg (Option.map _) (continuation?_forget grown known)
  | _ => rfl

theorem leafText_forget (grown : start.Extends h) (known : v.IsKnown start.continuations.size) :
    v.leafText (h.forget start) = v.leafText h := by
  cases v with
  | continuation id =>
    have same := continuation?_forget grown known
    exact congrArg (fun found : Option Captured =>
      "[Continuation: " ++ found.elim "" (·.kind.text) ++ "]") same
  | _ => rfl

end Heap

/-- Values that lead to none of the stacks that were taken away look the same. -/
theorem Heap.resembles_forget {start : Heap} (grown : start.Extends h)
    (known : (h.forget start).IsKnown start.continuations.size) :
    h.Resembles (·.IsKnown start.continuations.size) (h.forget start) where
  pairs := rfl
  held found := known.pairs found
  leafText := leafText_forget grown
  required value := by rw [requiredCount, callee?_forget grown value, requiredCount]

/-! ## Native functions -/

/-- The world without the return points that were made after an earlier heap. -/
def World.forget (w : World) (start : Heap) : World :=
  { w with heap := w.heap.forget start }

section Calls

variable {start : Heap} {w : World} (grown : start.Extends w.heap)
  (known : (w.heap.forget start).IsKnown start.continuations.size)

theorem Effect.perform_forget (e : Effect) (w : World) :
    e.perform (w.forget start) = ((e.perform w).1, (e.perform w).2.forget start) := by
  cases e with
  | makeList values =>
    rw [Effect.perform, Effect.perform, show (w.forget start).heap.newList values = _ from
      Heap.forget_newList w.heap values]
    rfl
  | _ => rfl

include grown known

/-- What a native function does does not depend on new return points. -/
theorem Native.effect_forget (f : Native) (all : ∀ v ∈ args, v.IsKnown start.continuations.size) :
    f.effect args (w.forget start) = f.effect args w :=
  (Heap.resembles_forget grown known).effect f (argument_isKnown all 0)

theorem Native.call_forget (f : Native) (all : ∀ v ∈ args, v.IsKnown start.continuations.size) :
    f.call args (w.forget start) = ((f.call args w).1, (f.call args w).2.forget start) := by
  rw [Native.call, Native.call, Native.effect_forget grown known f all]
  cases f.effect args w with
  | error complaint => rfl
  | ok e =>
    dsimp only
    rw [Effect.perform_forget]

end Calls

end SourceMachine

import SourceMachine.Proofs.Machine.Moves

/-!
# What the operations of the heap leave alone

Most operations bind names or write pairs.  They make no scope, no closure and no
captured stack, and they forget none: this is `Heap.Keeps`, a relation that
composes.
-/

namespace SourceMachine

variable {h h' : Heap} {f : Value} {c : Closure} {env : Env} {k : Captured}
  {result : Except Fault Unit} {s : Stmt} {body : List Stmt}

/-! ## Declared names -/

/-- The names that the statements of a body declare. -/
def declaredNames (body : List Stmt) : List String :=
  body.filterMap fun s => s.declared?.map (·.1.name)

theorem declaredNames_cons_of_none (undeclared : s.declared? = none) (body : List Stmt) :
    declaredNames (s :: body) = declaredNames body := by
  unfold declaredNames
  rw [List.filterMap_cons, undeclared]
  rfl

theorem declaredNames_cons_of_some {id : Identifier} {isMutable : Bool}
    (declared : s.declared? = some (id, isMutable)) (body : List Stmt) :
    declaredNames (s :: body) = id.name :: declaredNames body := by
  unfold declaredNames
  rw [List.filterMap_cons, declared]
  rfl

namespace Heap

/-- Hoisting declares names of the body in the innermost scope, one after the other, and may fail
    on the way. -/
theorem hoist_induction {P : Heap → Prop} (bind : ∀ h id name, id ∈ env.head? →
      name ∈ declaredNames body → P h → P (h.bind id name .unassigned)) (start : P h)
    (hoisted : h.hoist env body = (result, h')) : P h' := by
  induction body generalizing h with
  | nil =>
    cases hoisted
    exact start
  | cons s rest ih =>
    rw [hoist] at hoisted
    split at hoisted
    · next undeclared =>
      rw [declaredNames_cons_of_none undeclared] at bind
      exact ih bind start hoisted
    · next x isMutable declared =>
      rw [declaredNames_cons_of_some declared] at bind
      have others := fun h id name first member =>
        bind h id name first (List.mem_cons_of_mem _ member)
      have first : P (h.declare env x isMutable).2 := by
        unfold declare
        split
        · exact start
        · split
          · exact start
          · exact bind h _ _ rfl List.mem_cons_self start
      split at hoisted
      · next failed =>
        cases hoisted
        rw [failed] at first
        exact first
      · next made =>
        rw [made] at first
        exact ih others first hoisted

/-! ## What a value leads to -/

/-- Only the value that names a closure leads to it. -/
theorem callee?_eq_closure (leads : h.callee? f = some (.closure c)) :
    ∃ id, f = .closure id ∧ h.closure? id = some c := by
  cases f with
  | closure id =>
    obtain ⟨c', found, same⟩ := Option.map_eq_some_iff.1 leads
    cases same
    exact ⟨id, rfl, found⟩
  | continuation id =>
    obtain ⟨k, _, same⟩ := Option.map_eq_some_iff.1 leads
    cases same
  | _ => cases leads

/-- Only the value that names a captured stack leads to it. -/
theorem callee?_eq_continuation (leads : h.callee? f = some (.continuation k)) :
    ∃ id, f = .continuation id ∧ h.continuation? id = some k := by
  cases f with
  | continuation id =>
    obtain ⟨k', found, same⟩ := Option.map_eq_some_iff.1 leads
    cases same
    exact ⟨id, rfl, found⟩
  | closure id =>
    obtain ⟨c, _, same⟩ := Option.map_eq_some_iff.1 leads
    cases same
  | _ => cases leads

theorem mem_closures_of_callee? (leads : h.callee? f = some (.closure c)) : c ∈ h.closures := by
  obtain ⟨id, -, found⟩ := callee?_eq_closure leads
  exact Array.mem_of_getElem? found

theorem mem_continuations_of_callee? (leads : h.callee? f = some (.continuation k)) :
    k ∈ h.continuations := by
  obtain ⟨id, -, found⟩ := callee?_eq_continuation leads
  exact Array.mem_of_getElem? found

/-! ## Names and pairs -/

/-- What the scopes are called, in the order of their addresses. -/
def labels (h : Heap) : List String :=
  h.scopes.toList.map Scope.label

@[simp] theorem length_labels (h : Heap) : h.labels.length = h.scopes.size := by
  simp [labels]

/-- The second heap has the closures and the captured stacks of the first, and
    scopes of the same names at the same addresses. -/
structure Keeps (h h' : Heap) : Prop where
  closures : h'.closures = h.closures
  continuations : h'.continuations = h.continuations
  labels : h'.labels = h.labels

namespace Keeps

theorem refl (h : Heap) : h.Keeps h :=
  ⟨rfl, rfl, rfl⟩

theorem trans {h₁ h₂ h₃ : Heap} (a : h₁.Keeps h₂) (b : h₂.Keeps h₃) : h₁.Keeps h₃ :=
  ⟨b.closures.trans a.closures, b.continuations.trans a.continuations, b.labels.trans a.labels⟩

theorem size (kept : h.Keeps h') : h'.scopes.size = h.scopes.size := by
  rw [← length_labels, ← length_labels, kept.labels]

theorem captures (kept : h.Keeps h') : h.continuations.size ≤ h'.continuations.size :=
  (congrArg Array.size kept.continuations).ge

theorem bind (h : Heap) (id : ScopeId) (name : String) (slot : Slot) :
    h.Keeps (h.bind id name slot) := by
  refine ⟨rfl, rfl, ?_⟩
  unfold Heap.labels Heap.bind
  rw [Array.toList_modify]
  refine List.ext_getElem (by simp) fun i _ _ => ?_
  simp only [List.getElem_map, List.getElem_modify]
  split <;> rfl

theorem define (h : Heap) (env : Env) (name : String) (v : Value) (isMutable : Bool) :
    h.Keeps (h.define env name v isMutable) := by
  cases env with
  | nil => exact refl h
  | cons scope _ => exact bind h _ _ _

theorem set (h : Heap) (id : Identifier) (v : Value) (env : Env) : h.Keeps (h.set id v env).2 := by
  unfold Heap.set
  split
  · exact refl h
  · exact bind h _ _ _

theorem of_set {id : Identifier} {v : Value} (changed : h.set id v env = (result, h')) :
    h.Keeps h' := by
  have kept := set h id v env
  rw [changed] at kept
  exact kept

theorem of_hoist (hoisted : h.hoist env body = (result, h')) : h.Keeps h' := by
  refine hoist_induction (P := h.Keeps) (fun h₁ id name _ _ kept => ?_) (refl h) hoisted
  exact kept.trans (bind h₁ id name .unassigned)

theorem newPair (h : Heap) (head tail : Value) : h.Keeps (h.newPair head tail).2 :=
  ⟨rfl, rfl, rfl⟩

theorem newListOnto (h : Heap) (tail : Value) (reversed : List Value) :
    h.Keeps (h.newListOnto tail reversed).2 := by
  induction reversed generalizing h tail with
  | nil => exact refl h
  | cons v vs ih => exact (newPair h v tail).trans (ih _ _)

theorem newList (h : Heap) (values : List Value) : h.Keeps (h.newList values).2 :=
  newListOnto h .null values.reverse

theorem setHead (h : Heap) (id : PairId) (v : Value) : h.Keeps (h.setHead id v) :=
  ⟨rfl, rfl, rfl⟩

theorem setTail (h : Heap) (id : PairId) (v : Value) : h.Keeps (h.setTail id v) :=
  ⟨rfl, rfl, rfl⟩

theorem bindParams (h : Heap) (env : Env) (params : List Param) (args : List Value) :
    h.Keeps (h.bindParams env params args) := by
  induction params generalizing h args with
  | nil => exact refl h
  | cons p params ih =>
    unfold Heap.bindParams
    split
    · exact ((newList h args).trans (define _ env _ _ true)).trans (ih _ _)
    · exact (define h env _ _ true).trans (ih _ _)

theorem install (table : Table) (env : Env) (h : Heap) : h.Keeps (table.install env h) := by
  unfold Table.install
  induction table generalizing h with
  | nil => exact refl h
  | cons entry rest ih => exact (define h env entry.1 entry.2 false).trans (ih _)

/-- A native function changes no scope, closure or captured stack. -/
theorem perform (e : Effect) (w : World) : w.heap.Keeps (e.perform w).2.heap := by
  cases e with
  | give | write | draw => exact refl _
  | makePair head tail => exact newPair _ head tail
  | makeList values => exact newList _ values
  | setHead id v => exact setHead _ id v
  | setTail id v => exact setTail _ id v

end Keeps

/-- A call captures the stack of the caller. -/
theorem enterCall_objects (h : Heap) (c : Closure) (args : List Value) (caller : Captured) :
    (h.enterCall c args caller).2.closures = h.closures ∧
      (h.enterCall c args caller).2.continuations = h.continuations.push caller := by
  have kept := Keeps.bindParams (h.newScope c.function.displayName c.env).2
    (⟨h.scopes.size⟩ :: c.env) c.function.params args
  rw [enterCall_snd]
  exact ⟨kept.closures, congrArg (Array.push · caller) kept.continuations⟩

end Heap

end SourceMachine

import SourceMachine.Proofs.Session.Lasting

/-!
# What is known of a heap

A piece of a program looks at the scopes around it and at objects that it has made.  `Shows`
says what slots a scope has, all of them, and `Sees` says it of the scopes around a piece of a
program, which lie inside of others where the builtin functions are found.  With the slots
written out, what a name leads to is a matter of computation.

`Grows` says what a piece of a program leaves alone: everything but the scopes that it has
touched.  Knowledge of the heap is carried over with it.
-/

namespace SourceMachine

variable {id : ScopeId} {h h' : Heap} {entries : Named Slot} {v list : Value} {isMutable : Bool}
  {name x label : String} {around outer : Env} {body : List Stmt} {result : Except Fault Unit}
  {slots : List (Named Slot)} {vs : List Value}

/-! ## Slots of some scopes, from the inside out -/

namespace Named

/-- What a name is bound to in the first scope that has it. -/
def seek (name : String) : List (Named Slot) → Option Slot :=
  List.findSome? (find? name)

/-- The slots after a name was bound in the first scope that has it. -/
def rebind (name : String) (slot : Slot) : List (Named Slot) → List (Named Slot)
  | [] => []
  | slots :: rest =>
    if (find? name slots).isSome then bind name slot slots :: rest
    else slots :: rebind name slot rest

/-- The first scope that has a name. -/
def owner? (name : String) : Env → List (Named Slot) → Option ScopeId
  | id :: env, slots :: rest => if (find? name slots).isSome then some id else owner? name env rest
  | _, _ => none

/-- The slots of names that were declared. -/
def declared (names : List String) : Named Slot :=
  names.map (·, .unassigned)

/-- The slots after parameters were given their values. -/
def give : List String → List Value → Named Slot → Named Slot
  | x :: params, v :: args, slots => give params args (bind x (.assigned v true) slots)
  | _, _, slots => slots

/-- The slots of a call: its parameters and its return point. -/
def called (params : List String) (args : List Value) (k : ContinuationId) : Named Slot :=
  bind returnPoint (.assigned (.continuation k) false) (give params args [])

theorem seek_cons (name : String) (slots : Named Slot) (rest : List (Named Slot)) :
    seek name (slots :: rest) = (find? name slots).or (seek name rest) := by
  rw [seek, List.findSome?_cons]
  cases find? name slots <;> rfl

/-- Only the return point is found in the scopes of a call without parameters. -/
theorem seek_called (other : x ≠ returnPoint) (k : ContinuationId) (slots : List (Named Slot)) :
    seek x ([] :: called [] [] k :: slots) = seek x slots := by
  have absent : find? x (called [] [] k) = none := find?_bind_of_ne other _ []
  rw [seek_cons, seek_cons, absent]
  rfl

section Inner

variable {name : String} {front : List (Named Slot)} (absent : seek name front = none)
include absent

/-- Scopes that do not have a name are passed when it is looked for. -/
theorem seek_append (slots : List (Named Slot)) : seek name (front ++ slots) = seek name slots := by
  rw [seek, List.findSome?_append, show List.findSome? (find? name) front = none from absent]
  rfl

theorem rebind_append (slot : Slot) (slots : List (Named Slot)) :
    rebind name slot (front ++ slots) = front ++ rebind name slot slots := by
  induction front with
  | nil => rfl
  | cons entries front ih =>
    rw [seek_cons, Option.or_eq_none_iff] at absent
    rw [List.cons_append, rebind, absent.1, ih absent.2]
    rfl

theorem owner?_append (same : around.length = front.length) (env : Env)
    (slots : List (Named Slot)) :
    owner? name (around ++ env) (front ++ slots) = owner? name env slots := by
  induction front generalizing around with
  | nil => rw [List.length_eq_zero_iff.1 same, List.nil_append, List.nil_append]
  | cons entries front ih =>
    obtain ⟨id, around, rfl⟩ := List.exists_cons_of_length_eq_add_one same
    rw [seek_cons, Option.or_eq_none_iff] at absent
    rw [List.cons_append, List.cons_append, owner?, absent.1, ← ih absent.2 (Nat.succ.inj same)]
    rfl

end Inner

theorem find?_declared (names : List String) (name : String) :
    find? name (declared names) = if name ∈ names then some .unassigned else none := by
  induction names with
  | nil => rfl
  | cons other names ih =>
    rw [declared, List.map_cons, find?]
    by_cases same : other = name
    · rw [if_pos same, if_pos (by simp [same])]
    · rw [if_neg same]
      refine ih.trans ?_
      simp [Ne.symm same]

end Named

namespace Heap

/-! ## Growing -/

/-- Nothing that is there goes away, and all scopes but the touched ones stay as they are. -/
structure Grows (touched : List ScopeId) (h h' : Heap) : Prop where
  size : h.scopes.size ≤ h'.scopes.size
  scopes : ∀ {id : ScopeId}, id.index < h.scopes.size → id ∉ touched → h.KeepsScope id h'
  pairs : ∀ {id : PairId} {p : Value × Value}, h.pair? id = some p → h'.pair? id = some p
  lasts : h.Lasts h'

namespace Grows

variable {touched touched' : List ScopeId} {h h₁ h₂ : Heap}

theorem refl (h : Heap) : Grows touched h h :=
  ⟨le_rfl, fun _ _ => .refl h, id, .refl h⟩

theorem trans (a : Grows touched h h₁) (b : Grows touched' h₁ h₂) :
    Grows (touched ++ touched') h h₂ := by
  refine ⟨a.size.trans b.size, fun inside apart => ?_, fun found => b.pairs (a.pairs found),
    a.lasts.trans b.lasts⟩
  rw [List.mem_append, not_or] at apart
  exact (a.scopes inside apart.1).trans (b.scopes (inside.trans_le a.size) apart.2)

/-- What is touched can be forgotten if it was not there before. -/
theorem old (grows : Grows touched h h₁)
    (fresh : ∀ id ∈ touched, h.scopes.size ≤ id.index ∨ id ∈ touched') : Grows touched' h h₁ := by
  refine ⟨grows.size, fun inside apart => grows.scopes inside fun member => ?_, grows.pairs,
    grows.lasts⟩
  exact (fresh _ member).elim (fun new => absurd inside new.not_gt) apart

theorem mono (grows : Grows touched h h₁) (more : ∀ id ∈ touched, id ∈ touched') :
    Grows touched' h h₁ :=
  grows.old fun id member => .inr (more id member)

theorem newScope (h : Heap) (label : String) (outer : Env) :
    Grows [] h (h.newScope label outer).2 := by
  refine ⟨?_, fun _ _ => .newScope h label outer, id, .newScope h label outer⟩
  rw [Heap.newScope, Array.size_push]
  exact Nat.le_succ _

theorem newPair (h : Heap) (head tail : Value) : Grows [] h (h.newPair head tail).2 :=
  ⟨le_rfl, fun _ _ => .of_scopes rfl, fun found => getElem?_push_of_eq_some found _,
    .of_keeps (.newPair h head tail)⟩

theorem newListOnto (h : Heap) (tail : Value) (reversed : List Value) :
    Grows [] h (h.newListOnto tail reversed).2 := by
  induction reversed generalizing h tail with
  | nil => exact refl h
  | cons v vs ih => exact (newPair h v tail).trans (ih _ _)

theorem newClosure (h : Heap) (c : Closure) : Grows [] h (h.newClosure c).2 :=
  ⟨le_rfl, fun _ _ => .of_scopes rfl, id, .newClosure h c⟩

theorem newContinuation (h : Heap) (k : Captured) : Grows [] h (h.newContinuation k).2 :=
  ⟨le_rfl, fun _ _ => .of_scopes rfl, id, .newContinuation h k⟩

theorem bind (h : Heap) (id : ScopeId) (name : String) (slot : Slot) :
    Grows [id] h (h.bind id name slot) := by
  have kept := Keeps.bind h id name slot
  refine ⟨kept.size.ge, fun _ apart other => ?_, fun found => found, .of_keeps kept⟩
  exact slot?_bind_of_scope_ne (Ne.symm (by simpa using apart)) h name other slot

theorem hoist (h : Heap) (id : ScopeId) (outer : Env) (body : List Stmt) :
    Grows [id] h (h.hoist (id :: outer) body).2 := by
  refine hoist_induction (P := Grows [id] h) (fun h₁ scope x first _ grown => ?_) (refl h) rfl
  cases first
  exact (grown.trans (bind h₁ id x .unassigned)).mono (by simp)

theorem bindParams (h : Heap) (id : ScopeId) (outer : Env) (params : List Param)
    (args : List Value) : Grows [id] h (h.bindParams (id :: outer) params args) := by
  induction params generalizing h args with
  | nil => exact refl h
  | cons p params ih =>
    rw [Heap.bindParams]
    split
    · refine ((newListOnto h .null _).trans ((bind _ id p.id.name _).trans (ih _ _))).mono ?_
      simp
    · refine ((bind h id p.id.name _).trans (ih _ _)).mono ?_
      simp

theorem of_fresh (grows : Grows [id] h h₁) (fresh : h.scopes.size ≤ id.index) : Grows [] h h₁ :=
  grows.old fun _ same => .inl (List.mem_singleton.1 same ▸ fresh)

/-- The scopes outside of a piece of a program lead to the same values. -/
theorem get_eq (grows : Grows touched h h₁) {env : Env}
    (there : ∀ id ∈ env, id.index < h.scopes.size) (apart : ∀ id ∈ env, id ∉ touched)
    (x : Identifier) : h₁.get x env = h.get x env :=
  get_congr fun id member => grows.scopes (there id member) (apart id member) x.name

end Grows

/-! ## Scopes -/

/-- A scope is there, and these are its slots. -/
structure Shows (h : Heap) (id : ScopeId) (slots : Named Slot) : Prop where
  inside : id.index < h.scopes.size
  slot?_eq : ∀ name, h.slot? id name = Named.find? name slots

namespace Shows

variable {h h' : Heap} {id : ScopeId} {slots : Named Slot} {touched : List ScopeId}

theorem grows (known : h.Shows id slots) (grows : Grows touched h h') (apart : id ∉ touched) :
    h'.Shows id slots :=
  ⟨known.inside.trans_le grows.size,
    fun name => (grows.scopes known.inside apart name).trans (known.slot?_eq name)⟩

theorem bind (known : h.Shows id slots) (name : String) (slot : Slot) :
    (h.bind id name slot).Shows id (slots.bind name slot) := by
  refine ⟨known.inside.trans_eq (Keeps.bind h id name slot).size.symm, fun other => ?_⟩
  by_cases same : other = name
  · subst same
    rw [slot?_bind_self known.inside, Named.find?_bind_self]
  · rw [slot?_bind_of_name_ne same, Named.find?_bind_of_ne same, known.slot?_eq]

theorem newScope (h : Heap) (label : String) (outer : Env) :
    (h.newScope label outer).2.Shows ⟨h.scopes.size⟩ [] := by
  refine ⟨?_, slot?_newScope_next h label outer⟩
  rw [Heap.newScope, Array.size_push]
  exact Nat.lt_succ_self _

/-- Binding parameters, none of which takes all arguments that are left. -/
theorem bindParams {names : List String} {params : List Param} {args : List Value}
    (known : h.Shows id slots)
    (simple : params.map Param.unspanned = names.map fun x => ⟨⟨x, {}⟩, false⟩)
    (counted : args.length = names.length) (outer : Env) :
    (h.bindParams (id :: outer) params args).Shows id (Named.give names args slots) := by
  induction names generalizing h slots args params with
  | nil =>
    rw [List.map_nil, List.map_eq_nil_iff] at simple
    rw [simple]
    exact known
  | cons x names ih =>
    obtain ⟨v, args, rfl⟩ := List.exists_cons_of_length_eq_add_one counted
    obtain ⟨p, params, rfl, first, rest⟩ := List.map_eq_cons_iff.1 simple
    have named : p.id.name = x := congrArg (·.id.name) first
    have single : p.isRest = false := congrArg Param.isRest first
    rw [Heap.bindParams, single, named]
    exact ih (known.bind x (.assigned v true)) rest (Nat.succ.inj counted)

theorem enterBody
    (hoisted : (h.newScope label outer).2.hoist (h.newScope label outer).1 body = (result, h'))
    (distinct : (declaredNames body).Nodup) :
    result = .ok () ∧ h'.Shows ⟨h.scopes.size⟩ (Named.declared (declaredNames body)) := by
  have scope : h.newScope label outer = ((h.newScope label outer).1, (h.newScope label outer).2) :=
    rfl
  obtain ⟨h'', succeeds⟩ := (hoist_enters_iff scope).2 distinct
  rw [succeeds] at hoisted
  cases hoisted
  refine ⟨rfl, ?_, fun name => ?_⟩
  · exact Nat.lt_of_lt_of_eq (Nat.lt_succ_self _) (size_enterBody scope succeeds).symm
  · rw [Named.find?_declared]
    exact slot?_of_enters scope succeeds name

end Shows

theorem Grows.enterBody
    (hoisted : (h.newScope label outer).2.hoist (h.newScope label outer).1 body = (result, h')) :
    Grows [] h h' := by
  have grown := (newScope h label outer).trans (hoist (h.newScope label outer).2 ⟨h.scopes.size⟩
    outer body)
  have same : (h.newScope label outer).2.hoist (⟨h.scopes.size⟩ :: outer) body = _ := hoisted
  rw [same] at grown
  exact grown.of_fresh le_rfl

/-- A call makes a scope with its parameters and its return point. -/
theorem enterCall_shows {params : List String} {args : List Value} {c : Closure}
    (simple : c.function.params.map Param.unspanned = params.map fun x => ⟨⟨x, {}⟩, false⟩)
    (counted : args.length = params.length) (h : Heap) (caller : Captured) :
    (h.enterCall c args caller).2.Shows ⟨h.scopes.size⟩
        (Named.called params args ⟨h.continuations.size⟩) ∧
      Grows [] h (h.enterCall c args caller).2 := by
  rw [enterCall_snd]
  have scope := Shows.newScope h c.function.displayName c.env
  have grown := Grows.newScope h c.function.displayName c.env
  have bound := scope.bindParams simple counted c.env
  have params := Grows.bindParams (h.newScope c.function.displayName c.env).2 ⟨h.scopes.size⟩ c.env
    c.function.params args
  have same := (Keeps.bindParams (h.newScope c.function.displayName c.env).2
    (⟨h.scopes.size⟩ :: c.env) c.function.params args).continuations
  generalize (h.newScope c.function.displayName c.env).2.bindParams (⟨h.scopes.size⟩ :: c.env)
    c.function.params args = inner at bound params same
  have captured := Grows.newContinuation inner caller
  have next : inner.continuations.size = h.continuations.size := congrArg Array.size same
  constructor
  · rw [← next]
    exact (bound.grows captured (by simp)).bind _ _
  · have entered := ((grown.trans params).trans captured).trans (.bind _ ⟨h.scopes.size⟩ returnPoint
      (.assigned (inner.newContinuation caller).1 false))
    exact (entered.mono (by simp) : Grows [⟨h.scopes.size⟩] h _).of_fresh le_rfl

/-! ## Lists -/

/-- A value is a list with these elements. -/
inductive IsListOf (h : Heap) : Value → List Value → Prop where
  | nil : IsListOf h .null []
  | cons {id : PairId} {v tail : Value} {vs : List Value} (first : h.pair? id = some (v, tail))
      (rest : IsListOf h tail vs) : IsListOf h (.pair id) (v :: vs)

variable {touched : List ScopeId}

theorem IsListOf.grows (list : h.IsListOf v vs) (grows : Grows touched h h') :
    h'.IsListOf v vs := by
  induction list with
  | nil => exact .nil
  | cons first _ ih => exact .cons (grows.pairs first) ih

theorem IsListOf.eq_null (empty : h.IsListOf list []) : list = .null := by
  cases empty
  rfl

theorem IsListOf.exists_pair (some : h.IsListOf list (v :: vs)) :
    ∃ id tail, list = .pair id ∧ h.pair? id = .some (v, tail) ∧ h.IsListOf tail vs := by
  cases some with
  | cons first rest => exact ⟨_, _, rfl, first, rest⟩

theorem IsListOf.newListOnto {tail : Value} (list : h.IsListOf tail vs) (reversed : List Value) :
    (h.newListOnto tail reversed).2.IsListOf (h.newListOnto tail reversed).1
      (reversed.reverse ++ vs) := by
  induction reversed generalizing h tail vs with
  | nil => exact list
  | cons v reversed ih =>
    rw [List.reverse_cons, List.append_assoc]
    have first : (h.newPair v tail).2.pair? ⟨h.pairs.size⟩ = some (v, tail) :=
      Array.getElem?_push_size
    exact ih (.cons first (list.grows (.newPair h v tail)))

theorem IsListOf.newList (h : Heap) (vs : List Value) :
    (h.newList vs).2.IsListOf (h.newList vs).1 vs := by
  have made := newListOnto (.nil : h.IsListOf .null []) vs.reverse
  rwa [List.reverse_reverse, List.append_nil] at made

theorem Grows.newList (h : Heap) (vs : List Value) : Grows [] h (h.newList vs).2 :=
  newListOnto h .null vs.reverse

/-! ## Scopes around a piece of a program -/

/-- Builtin functions are found in these scopes under their names. -/
structure Serves (h : Heap) (base : Env) : Prop where
  inside : ∀ id ∈ base, id.index < h.scopes.size
  get_eq : ∀ f : Primitive, h.get ⟨f.name, {}⟩ base = .ok (.builtin f 0)

/-- The slots of the scopes around a piece of a program are these, and the builtin functions are
    found in the scopes outside of them. -/
structure Sees (h : Heap) (around : Env) (slots : List (Named Slot)) (base : Env) : Prop where
  shown : List.Forall₂ h.Shows around slots
  serves : h.Serves base
  distinct : (around ++ base).Nodup

theorem Serves.grows {base : Env} (serves : h.Serves base) (grows : Grows touched h h')
    (apart : ∀ id ∈ base, id ∉ touched) : h'.Serves base :=
  ⟨fun id member => (serves.inside id member).trans_le grows.size,
    fun f => (grows.get_eq serves.inside apart _).trans (serves.get_eq f)⟩

/-- A function is found under its name, made in the scopes where it is found. -/
def Offers (h : Heap) (base : Env) (f : Function) : Prop :=
  ∃ x k, f.id = some x ∧ h.get x base = .ok (.closure k) ∧ h.closure? k = some ⟨f, base⟩

theorem Offers.grows {base : Env} {f : Function} (offers : h.Offers base f) (serves : h.Serves base)
    (grows : Grows touched h h') (apart : ∀ id ∈ base, id ∉ touched) : h'.Offers base f := by
  obtain ⟨x, k, named, found, closure⟩ := offers
  refine ⟨x, k, named, ?_, grows.lasts.closures closure⟩
  rw [grows.get_eq serves.inside apart, found]

theorem Offers.grown {base : Env} {f : Function} (offers : h.Offers base f) (serves : h.Serves base)
    (grows : Grows [] h h') : h'.Offers base f :=
  offers.grows serves grows fun _ _ => List.not_mem_nil

theorem forall₂_shows_grows (shown : List.Forall₂ h.Shows around slots) (grows : Grows touched h h')
    (apart : ∀ id ∈ around, id ∉ touched) : List.Forall₂ h'.Shows around slots := by
  induction shown with
  | nil => exact .nil
  | cons first _ ih =>
    rw [List.forall_mem_cons] at apart
    exact .cons (first.grows grows apart.1) (ih apart.2)

theorem inside_of_forall₂_shows (shown : List.Forall₂ h.Shows around slots) (member : id ∈ around) :
    id.index < h.scopes.size := by
  induction shown with
  | nil => cases member
  | cons first _ ih =>
    rcases List.mem_cons.1 member with rfl | member
    · exact first.inside
    · exact ih member

section Looking

variable {h : Heap} {around base : Env} {slots : List (Named Slot)} {x : Identifier}

section

variable (shown : List.Forall₂ h.Shows around slots)

include shown

theorem get_of_seek (found : Named.seek x.name slots = some (.assigned v isMutable)) :
    h.get x (around ++ base) = .ok v := by
  induction shown with
  | nil => cases found
  | @cons id entries around slots first _ ih =>
    rw [Named.seek_cons] at found
    rw [List.cons_append, get, first.slot?_eq]
    cases here : Named.find? x.name entries with
    | some slot =>
      rw [here] at found
      cases found
      rfl
    | none =>
      rw [here] at found
      exact ih found

theorem get_of_seek_none (absent : Named.seek x.name slots = none) :
    h.get x (around ++ base) = h.get x base := by
  induction shown with
  | nil => rfl
  | @cons id entries around slots first _ ih =>
    rw [Named.seek_cons, Option.or_eq_none_iff] at absent
    rw [List.cons_append, get, first.slot?_eq, absent.1]
    exact ih absent.2

theorem lookup?_of_seek (found : Named.seek name slots = some (.assigned v isMutable)) :
    h.lookup? name (around ++ base) = some v := by
  induction shown with
  | nil => cases found
  | @cons id entries around slots first _ ih =>
    rw [Named.seek_cons] at found
    rw [List.cons_append, lookup?, first.slot?_eq]
    cases here : Named.find? name entries with
    | some slot =>
      rw [here] at found
      cases found
      rfl
    | none =>
      rw [here] at found
      exact ih found

theorem assignable_of_seek (found : Named.seek x.name slots = some (.assigned v true))
    (owned : Named.owner? x.name around slots = some id) :
    h.assignable x (around ++ base) = .ok id := by
  induction shown with
  | nil => cases found
  | @cons id entries around slots first _ ih =>
    rw [Named.seek_cons] at found
    rw [Named.owner?] at owned
    rw [List.cons_append, assignable, first.slot?_eq]
    cases here : Named.find? x.name entries with
    | some slot =>
      rw [here] at found owned
      cases found
      cases owned
      rfl
    | none =>
      rw [here] at found owned
      exact ih found owned

end

theorem owner?_mem (owned : Named.owner? name around slots = some id) : id ∈ around := by
  induction around generalizing slots with
  | nil => cases slots <;> cases owned
  | cons first around ih =>
    cases slots with
    | nil => cases owned
    | cons entries slots =>
      rw [Named.owner?] at owned
      split at owned
      · cases owned
        exact List.mem_cons_self
      · exact List.mem_cons_of_mem _ (ih owned)

/-- Binding a name in the first scope that has it. -/
theorem forall₂_shows_bind (slot : Slot) (shown : List.Forall₂ h.Shows around slots)
    (distinct : around.Nodup) (owned : Named.owner? name around slots = some id) :
    List.Forall₂ (h.bind id name slot).Shows around (Named.rebind name slot slots) := by
  induction shown with
  | nil => cases owned
  | @cons first entries around slots known rest ih =>
    obtain ⟨apart, distinct⟩ := List.nodup_cons.1 distinct
    rw [Named.owner?] at owned
    rw [Named.rebind]
    by_cases here : (Named.find? name entries).isSome = true
    · rw [if_pos here] at owned ⊢
      cases owned
      refine .cons (known.bind name slot)
        (forall₂_shows_grows rest (.bind h id name slot) fun other member same => ?_)
      rw [List.mem_singleton.1 same] at member
      exact apart member
    · rw [if_neg here] at owned ⊢
      refine .cons (known.grows (.bind h id name slot) ?_) (ih distinct owned)
      rw [List.mem_singleton]
      rintro rfl
      exact apart (owner?_mem owned)

end Looking

namespace Sees

variable {h h' : Heap} {around base : Env} {slots : List (Named Slot)} {touched : List ScopeId}

section

variable (sees : h.Sees around slots base)

include sees

theorem get (found : Named.seek x slots = some (.assigned v isMutable)) :
    h.get ⟨x, {}⟩ (around ++ base) = .ok v :=
  get_of_seek sees.shown found

theorem builtin (f : Primitive) (absent : Named.seek f.name slots = none) :
    h.get ⟨f.name, {}⟩ (around ++ base) = .ok (.builtin f 0) := by
  rw [get_of_seek_none sees.shown absent]
  exact sees.serves.get_eq f

theorem lookup? (found : Named.seek name slots = some (.assigned v isMutable)) :
    h.lookup? name (around ++ base) = some v :=
  lookup?_of_seek sees.shown found

theorem inside (member : id ∈ around ++ base) : id.index < h.scopes.size := by
  rcases List.mem_append.1 member with near | far
  · exact inside_of_forall₂_shows sees.shown near
  · exact sees.serves.inside id far

theorem grows (grows : Grows touched h h') (apart : ∀ id ∈ around ++ base, id ∉ touched) :
    h'.Sees around slots base :=
  ⟨forall₂_shows_grows sees.shown grows fun id member => apart id (List.mem_append_left _ member),
    sees.serves.grows grows fun id member => apart id (List.mem_append_right _ member),
    sees.distinct⟩

/-- Nothing that is known was touched. -/
theorem grown (grows : Grows [] h h') : h'.Sees around slots base :=
  sees.grows grows fun _ _ => List.not_mem_nil

/-- What is seen from a scope that is there. -/
theorem insert (known : h.Shows id entries) (apart : id ∉ around ++ base) :
    h.Sees (id :: around) (entries :: slots) base :=
  ⟨.cons known sees.shown, sees.serves, List.nodup_cons.2 ⟨apart, sees.distinct⟩⟩

/-- A scope that was made inside of the others. -/
theorem cons (grows : Grows [] h h') (fresh : h.scopes.size ≤ id.index)
    (known : h'.Shows id entries) : h'.Sees (id :: around) (entries :: slots) base := by
  refine (sees.grown grows).insert known fun member => ?_
  have old := sees.inside member
  omega

end

/-- What is seen of the innermost scope. -/
theorem head (sees : h.Sees (id :: around) (entries :: slots) base) : h.Shows id entries :=
  (List.forall₂_cons.1 sees.shown).1

/-- What is seen without the innermost scope. -/
theorem tail (sees : h.Sees (id :: around) (entries :: slots) base) : h.Sees around slots base :=
  ⟨(List.forall₂_cons.1 sees.shown).2, sees.serves, (List.nodup_cons.1 sees.distinct).2⟩

/-- What is seen without some inner scopes. -/
theorem drop {inner : Env} {front : List (Named Slot)}
    (sees : h.Sees (inner ++ around) (front ++ slots) base) (same : inner.length = front.length) :
    h.Sees around slots base := by
  induction front generalizing inner with
  | nil =>
    rw [List.length_eq_zero_iff.1 same] at sees
    exact sees
  | cons entries front ih =>
    obtain ⟨id, inner, rfl⟩ := List.exists_cons_of_length_eq_add_one same
    exact ih sees.tail (Nat.succ.inj same)

/-- The innermost scope is none of the others. -/
theorem ne_of_mem {other : ScopeId} (sees : h.Sees (id :: around) (entries :: slots) base)
    (member : other ∈ around ++ base) : other ≠ id := by
  rintro rfl
  exact (List.nodup_cons.1 sees.distinct).1 member

/-- A name was bound in the innermost scope. -/
theorem bindHere (sees : h.Sees (id :: around) (entries :: slots) base) (name : String)
    (slot : Slot) :
    (h.bind id name slot).Sees (id :: around) (entries.bind name slot :: slots) base := by
  have outside := sees.tail.grows (.bind h id name slot) fun other member same =>
    sees.ne_of_mem member (List.mem_singleton.1 same)
  exact ⟨.cons (sees.head.bind name slot) outside.shown, outside.serves,
    sees.distinct⟩

/-- A name was bound in the first scope that has it. -/
theorem bind (sees : h.Sees around slots base) (slot : Slot)
    (owned : Named.owner? name around slots = some id) :
    (h.bind id name slot).Sees around (Named.rebind name slot slots) base := by
  obtain ⟨near, -, apart⟩ := List.nodup_append.1 sees.distinct
  refine ⟨forall₂_shows_bind slot sees.shown near owned, ?_, sees.distinct⟩
  refine sees.serves.grows (.bind h id name slot) fun other member same => ?_
  rw [List.mem_singleton] at same
  exact apart id (owner?_mem owned) other member same.symm

theorem set_eq (sees : h.Sees around slots base) {old : Value}
    (found : Named.seek x slots = some (.assigned old true))
    (owned : Named.owner? x around slots = some id) (v : Value) :
    h.set ⟨x, {}⟩ v (around ++ base) = (.ok (), h.bind id x (.assigned v true)) := by
  rw [set, assignable_of_seek sees.shown found owned]

end Sees

end Heap

end SourceMachine

import SourceMachine.Proofs.Session.History

/-!
# Names that only a function can change

A function may declare names and assign them, and so may the functions inside of it.  What
neither declares nor assigns a name leaves the name alone (`Phrase.Spares`).  The scopes of a call
are only seen from inside of the function that was called.  So a name that the function spares
keeps its value in the scope of a call, and in all scopes inside of it, whatever the session does
after the call has begun (`IsLexical.slot?_eq`): no other phrase is ever run where it could
reach them, not by way of captured stacks either.
-/

namespace SourceMachine

variable {a b : Phrase} {names : List String} {x : Identifier} {base before env : Env} {v : Value}

/-! ## Phrases that leave names alone -/

/-- The names that a phrase itself declares or assigns. -/
def Phrase.changes : Phrase → List String
  | .statement (.declaration _ id _ _) => [id.name]
  | .statement (.function f) => (f.id.map (·.name)).toList
  | .expression (.assignment _ (.identifier id) _ _) => [id.name]
  | _ => []

/-- Neither a phrase nor anything inside of it declares or assigns one of some names. -/
inductive Phrase.Spares (names : List String) : Phrase → Prop where
  | mk {a : Phrase} (own : ∀ name ∈ a.changes, name ∉ names)
      (below : ∀ b, a.Below b → Spares names b) : Spares names a

/-- What stands inside of a function leaves the names alone that the function does. -/
theorem Occurs.spares {p : Program} {layers : List Layer} {f : Function}
    (occurs : Occurs p layers a) (inside : .function f ∈ layers)
    (spares : (Phrase.function f).Spares names) : a.Spares names := by
  induction occurs with
  | top => cases inside
  | inBlock _ member ih =>
    obtain ⟨-, below⟩ := ih ((List.mem_cons.1 inside).resolve_left (by simp))
    exact below _ (.inBlock member)
  | @inFunction layers g _ ih =>
    have whole : (Phrase.function g).Spares names := by
      rcases List.mem_cons.1 inside with same | around
      · cases same
        exact spares
      · exact ih around
    obtain ⟨-, below⟩ := whole
    exact below _ (.inFunction g)
  | part _ part ih =>
    obtain ⟨-, below⟩ := ih inside
    exact below _ (.part part)

namespace Phrase

/-! ### Places -/

/-- A phrase without its places. -/
def unspanned : Phrase → Phrase
  | .statement s => .statement s.unspanned
  | .expression e => .expression e.unspanned
  | .function f => .function f.unspanned

end Phrase

theorem Part.unspanned (part : Part a b) : Part a.unspanned b.unspanned := by
  cases part with
  | init => exact .init ..
  | test => exact .test ..
  | consequent => exact .consequent ..
  | alternate => exact .alternate ..
  | returned => exact .returned ..
  | expression => exact .expression ..
  | declared => exact .declared _
  | made => exact .made _
  | operand => exact .operand ..
  | left => exact .left ..
  | right => exact .right ..
  | first => exact .first ..
  | second => exact .second ..
  | condition => exact .condition ..
  | positive => exact .positive ..
  | negative => exact .negative ..
  | callee => exact .callee ..
  | argument callee span member =>
    refine .argument _ _ ?_
    rw [Expr.unspannedAll_eq_map]
    exact List.mem_map_of_mem member
  | assigned => exact .assigned ..

namespace Phrase

theorem Below.unspanned (below : a.Below b) : a.unspanned.Below b.unspanned := by
  cases below with
  | part part => exact .part part.unspanned
  | @inBlock b s member =>
    cases b
    refine .inBlock ?_
    rw [Block.unspanned, Stmt.unspannedAll_eq_map]
    exact List.mem_map_of_mem member
  | inFunction f =>
    cases f
    exact .inFunction _

theorem changes_unspanned (a : Phrase) : a.unspanned.changes = a.changes := by
  cases a with
  | statement s =>
    cases s with
    | function f =>
      obtain ⟨id, params, body, isArrow, span⟩ := f
      cases id <;> rfl
    | _ => rfl
  | expression e =>
    cases e with
    | assignment op target value span => cases target <;> rfl
    | _ => rfl
  | function f => rfl

/-- The names that a phrase leaves alone do not depend on places. -/
theorem Spares.of_unspanned (spares : b.Spares names) (same : a.unspanned = b) :
    a.Spares names := by
  induction spares generalizing a with
  | @mk b own _ ih =>
    subst same
    refine ⟨?_, fun c below => ih _ below.unspanned rfl⟩
    rw [← changes_unspanned]
    exact own

/-! ### A check -/

/-- The phrases right below another one. -/
def children : Phrase → List Phrase
  | .statement (.declaration _ _ init _) => [.expression init]
  | .statement (.function f) => [.function f]
  | .statement (.block b) => b.body.map .statement
  | .statement (.conditional test consequent alternate _) =>
    .expression test :: .statement consequent :: alternate.toList.map .statement
  | .statement (.returns argument _) => argument.toList.map .expression
  | .statement (.expression e _) => [.expression e]
  | .expression (.unary _ operand _) => [.expression operand]
  | .expression (.binary _ left right _) => [.expression left, .expression right]
  | .expression (.logical _ left right _) => [.expression left, .expression right]
  | .expression (.conditional test consequent alternate _) =>
    [.expression test, .expression consequent, .expression alternate]
  | .expression (.call callee arguments _) => .expression callee :: arguments.map .expression
  | .expression (.assignment _ _ value _) => [.expression value]
  | .expression (.function f) => [.function f]
  | .function f => [.statement (.block f.body)]
  | _ => []

theorem mem_children_of_below (below : a.Below b) : b ∈ a.children := by
  cases below with
  | part part =>
    cases part with
    | argument callee span member =>
      exact List.mem_cons_of_mem _ (List.mem_map_of_mem member)
    | _ => simp [children]
  | inBlock member => exact List.mem_map_of_mem member
  | inFunction f => exact List.mem_cons_self

/-- Whether a phrase that is not deeper than so many levels leaves some names alone. -/
def sparesTo (names : List String) : Nat → Phrase → Bool
  | 0, _ => false
  | depth + 1, a => a.changes.all (· ∉ names) && a.children.all (sparesTo names depth)

theorem spares_of_sparesTo {depth : Nat} (checked : sparesTo names depth a = true) :
    a.Spares names := by
  induction depth generalizing a with
  | zero => cases checked
  | succ depth ih =>
    rw [sparesTo, Bool.and_eq_true, List.all_eq_true, List.all_eq_true] at checked
    refine ⟨fun name member => of_decide_eq_true (checked.1 name member), fun b below => ?_⟩
    exact ih (checked.2 b (mem_children_of_below below))

end Phrase

/-! ## Scopes inside of others -/

/-- Each of these scopes was made inside of those after it. -/
inductive Nested (births : List Birth) : Env → Prop where
  | nil : Nested births []
  | cons {i : Nat} {site : Site} {env : Env} (born : births[i]? = some ⟨site, env⟩)
      (outside : Nested births env) : Nested births (⟨i⟩ :: env)

/-- A scope is another one, or was made inside of it. -/
def Within (births : List Birth) (id inner : ScopeId) : Prop :=
  inner = id ∨ ∃ birth, births[inner.index]? = some birth ∧ id ∈ birth.outer

section Scopes

variable {births : List Birth} {p : Program} {layers : List Layer} {env : Env}
  {id inner : ScopeId}

theorem Outermost.nested (outermost : Outermost births env) : Nested births env := by
  induction outermost with
  | builtins born => exact .cons born .nil
  | program born _ ih => exact .cons born ih

theorem Surrounds.nested (surrounds : Surrounds births p layers env) : Nested births env := by
  induction surrounds with
  | program born programs => exact .cons born programs.nested
  | block born _ ih | call born _ ih => exact .cons born ih

/-- Where a scope can be seen, those that it was made inside of can be seen. -/
theorem Nested.mem_of_within (nested : Nested births env) (member : inner ∈ env)
    (within : Within births id inner) : id ∈ env := by
  induction nested with
  | nil => cases member
  | cons born _ ih =>
    rcases List.mem_cons.1 member with rfl | outside
    · rcases within with rfl | ⟨birth, found, around⟩
      · exact List.mem_cons_self
      · cases born.symm.trans found
        exact List.mem_cons_of_mem _ around
    · exact List.mem_cons_of_mem _ (ih outside)

theorem Nested.within (nested : Nested births (before ++ id :: base)) (member : inner ∈ before) :
    Within births id inner := by
  induction before with
  | nil => cases member
  | cons first before ih =>
    cases nested with
    | cons born outside =>
      rcases List.mem_cons.1 member with rfl | later
      · exact .inr ⟨_, born, by simp⟩
      · exact ih outside later

theorem Nested.tail (nested : Nested births (id :: env)) : Nested births env := by
  cases nested with
  | cons _ outside => exact outside

theorem Within.append (within : Within births id inner) (more : List Birth) :
    Within (births ++ more) id inner := by
  rcases within with same | ⟨birth, born, around⟩
  · exact .inl same
  · exact .inr ⟨birth, born_append born more, around⟩

variable {f : Function} {callerEnv outer : Env} {callerStack : Stack}

theorem Outermost.not_call (outermost : Outermost births env) (member : id ∈ env) :
    births[id.index]? ≠ some ⟨.call f callerEnv callerStack, outer⟩ := by
  induction outermost with
  | builtins born =>
    rw [List.mem_singleton.1 member, born]
    simp
  | program born _ ih =>
    rcases List.mem_cons.1 member with rfl | outside
    · rw [born]
      simp
    · exact ih outside

/-- What sees the scope of a call stands inside of the function that was called. -/
theorem Surrounds.function_mem (surrounds : Surrounds births p layers env) (member : id ∈ env)
    (called : births[id.index]? = some ⟨.call f callerEnv callerStack, outer⟩) :
    .function f ∈ layers := by
  induction surrounds with
  | program born programs =>
    rcases List.mem_cons.1 member with rfl | outside
    · cases born.symm.trans called
    · exact absurd called (programs.not_call outside)
  | block born _ ih =>
    rcases List.mem_cons.1 member with rfl | outside
    · cases born.symm.trans called
    · exact List.mem_cons_of_mem _ (ih outside)
  | call born _ ih =>
    rcases List.mem_cons.1 member with rfl | outside
    · cases born.symm.trans called
      exact List.mem_cons_self
    · exact List.mem_cons_of_mem _ (ih outside)

end Scopes

/-! ## Slots that stay -/

/-- What a name leads to depends on the scopes up to the one that has it. -/
theorem Heap.get_append_of_slots {h h' : Heap}
    (same : ∀ id ∈ env, h'.slot? id x.name = h.slot? id x.name) (found : h.get x env = .ok v)
    (base : Env) : h'.get x (env ++ base) = .ok v := by
  obtain ⟨id, isMutable, nearest⟩ := get_eq_ok_iff.1 found
  have here := same id nearest.mem
  obtain ⟨inner, outer, rfl, absent, slot⟩ := nearest
  refine get_eq_ok_iff.2 ⟨id, isMutable, inner, outer ++ base, by simp, fun i member => ?_,
    here.trans slot⟩
  exact (same i (List.mem_append_left _ member)).trans (absent i member)

/-- A scope was made for a call of a function that leaves some names alone. -/
def Guards (births : List Birth) (names : List String) (id : ScopeId) : Prop :=
  ∃ f callerEnv callerStack outer,
    births[id.index]? = some ⟨.call f callerEnv callerStack, outer⟩ ∧
      (Phrase.function f).Spares names

theorem Guards.append {births : List Birth} {id : ScopeId} (guards : Guards births names id)
    (more : List Birth) : Guards (births ++ more) names id := by
  obtain ⟨f, callerEnv, callerStack, outer, called, spares⟩ := guards
  exact ⟨f, callerEnv, callerStack, outer, born_append called more, spares⟩

namespace Machine

variable {births : List Birth} {names : List String} {id inner : ScopeId} {m m' : Machine}
  {name : String}

theorem spares_of_isPlaced (placed : a.IsPlaced births env) (guards : Guards births names id)
    (within : Within births id inner) (member : inner ∈ env) : a.Spares names := by
  obtain ⟨p, layers, -, occurs, surrounds⟩ := placed
  obtain ⟨f, callerEnv, callerStack, outer, called, spares⟩ := guards
  have around := surrounds.nested.mem_of_within member within
  exact occurs.spares (surrounds.function_mem around called) spares

theorem mem_changes_of_declared {s : Stmt} {isMutable : Bool}
    (declared : s.declared? = some (x, isMutable)) : x.name ∈ (Phrase.statement s).changes := by
  cases s with
  | declaration kind id init span =>
    cases declared
    exact List.mem_cons_self
  | function f =>
    obtain ⟨y, named, same⟩ := Option.map_eq_some_iff.1 declared
    cases same
    simp [Phrase.changes, named]
  | _ => cases declared

section

variable (lexical : m.IsLexical births) (guards : Guards births names id)
  (within : Within births id inner) (inside : inner.index < m.world.heap.scopes.size)
  (member : name ∈ names)

include lexical guards within inside member

/-- A step leaves the names alone in the scopes of a call that its function leaves alone. -/
theorem IsLexical.slot?_step :
    m.step.2.world.heap.slot? inner name = m.world.heap.slot? inner name := by
  refine slot?_step_of_not_assigns inside ?_ ?_
  · rintro ⟨v, x, isMutable, outer, rest, -, top, rfl⟩
    have placed : Frame.IsPlaced births (.declare x isMutable (inner :: outer)) :=
      lexical.stack _ (by rw [top]; exact List.mem_cons_self)
    obtain ⟨s, declared, placed⟩ := placed
    obtain ⟨own, -⟩ := spares_of_isPlaced placed guards within List.mem_cons_self
    exact own x.name (mem_changes_of_declared declared) member
  · rintro ⟨v, x, env, rest, -, top, here, rfl⟩
    have placed : Frame.IsPlaced births (.assign x env) :=
      lexical.stack _ (by rw [top]; exact List.mem_cons_self)
    obtain ⟨value, span, placed⟩ := placed
    obtain ⟨own, -⟩ := spares_of_isPlaced placed guards within here
    exact own x.name List.mem_cons_self member

/-- So does everything that a session does after the call has begun. -/
theorem IsLexical.slot?_eq {later : List Birth} (reached : m.Reaches later m') :
    m'.world.heap.slot? inner name = m.world.heap.slot? inner name := by
  induction reached with
  | refl => rfl
  | @step later m' reached ih =>
    refine ((lexical.reaches reached).slot?_step (guards.append later) (within.append later) ?_
      member).trans ih
    obtain ⟨past, -, passed⟩ := Passes.of_reaches reached
    exact inside.trans_le passed.size_le
  | load _ _ ih | triedPreludes _ ih => exact ih

end

/-- A name that leads to the scope of a call, or to one inside of it, keeps its value. -/
theorem IsLexical.get_eq (lexical : m.IsLexical births) (guards : Guards births names id)
    (nested : Nested births (before ++ id :: base))
    (inside : ∀ inner ∈ before ++ [id], inner.index < m.world.heap.scopes.size)
    (member : x.name ∈ names) (found : m.world.heap.get x (before ++ [id]) = .ok v)
    (visited : m.Visits m') : m'.world.heap.get x (before ++ id :: base) = .ok v := by
  obtain ⟨later, reached⟩ := visited
  have same (inner : ScopeId) (here : inner ∈ before ++ [id]) :
      m'.world.heap.slot? inner x.name = m.world.heap.slot? inner x.name := by
    refine lexical.slot?_eq guards ?_ (inside inner here) member reached
    rcases List.mem_append.1 here with near | last
    · exact nested.within near
    · exact .inl (List.mem_singleton.1 last)
  rw [List.append_cons]
  exact Heap.get_append_of_slots same found base

end Machine

end SourceMachine

import SourceMachine.Proofs.Program.Nodes
import SourceMachine.Proofs.Program.Outline
import SourceMachine.Proofs.Program.Twins

/-!
# What readers give

Every reader of the grammar is gone through here once, on two streams that differ only in
places.  The two trees differ only in places as well (`unspanned`), and the first one is sound
(`Node.IsSound`): its names are spelled, the parameters of its functions are proper, and it is
not nested deeper than the levels allow.

Two kinds of steps lead from a node down to a part of it.  A loop of the grammar wraps what it
has read so far, as the left operand of one more operator, as the callee of one more call, or
as what one more member is taken from; this part is the core of the node (`Node.core?`).  All
other parts were read by a reader that the reader of the node called.  Calls of readers are
counted, and turns of a loop are not: one more level adds at most ten calls.
-/

namespace SourceMachine

open Reader

/-! ## Sound nodes -/

/-- The names of parameters are spelled and differ, and only the last one may be a rest
    parameter. -/
structure Param.AreProper (params : List Param) : Prop where
  spelled : ∀ p ∈ params, IsSpelled p.id.name
  nodup : (params.map (·.id.name)).Nodup
  rest : ∀ p ∈ params.dropLast, p.isRest = false

namespace Node

/-- The part that was read first, and that a loop of the grammar has made the node of: the left
    operand, the callee, and what a member is taken from. -/
def core? : Node → Option Node
  | .expression (.binary _ left _ _) | .expression (.logical _ left _ _) => some (.expression left)
  | .expression (.call callee _ _) => some (.expression callee)
  | .expression (.member access) => some (.member access)
  | .member access => some (.expression access.object)
  | _ => none

/-- The parts of a node that are not its core. -/
def others (n : Node) : List Node :=
  n.children.drop n.core?.toList.length

/-- The core comes before all other parts. -/
theorem children_eq (n : Node) : n.children = n.core?.toList ++ n.others := by
  cases n with
  | expression e => cases e <;> rfl
  | _ => rfl

/-- The names that a node itself reads, assigns or declares. -/
def names : Node → List String
  | .statement (.declaration _ id _ _) => [id.name]
  | .expression (.identifier id) => [id.name]
  | .expression (.assignment _ (.identifier id) _ _) => [id.name]
  | .function f => (f.id.map (·.name)).toList ++ f.params.map (·.id.name)
  | _ => []

/-- An object may use any text as a name: `\x7b "a b" \x7d` stands for `\x7b "a b": a b \x7d`. -/
def isObject : Node → Bool
  | .expression (.object ..) => true
  | _ => false

/-- The node has no names of its own, no parameters, and all its parts have proper names. -/
def isPlain : Node → Bool
  | .statement (.declaration ..) | .expression (.identifier _) => false
  | .expression (.assignment _ (.identifier _) _ _) | .expression (.object ..) => false
  | .function _ => false
  | _ => true

/-- The names in a node are spelled, those of the node itself only if it has to be strict, the
    parameters in it are proper, and on every way down from it fewer than `k` steps lead to a
    part that is not a core. -/
inductive IsSound : Bool → Nat → Node → Prop where
  | intro {strict : Bool} {k : Nat} {n : Node}
      (params : ∀ f, n = .function f → Param.AreProper f.params)
      (names : strict = true → ∀ name ∈ n.names, IsSpelled name)
      (core : ∀ c ∈ n.core?, IsSound true (k + 1) c)
      (others : ∀ c ∈ n.others, IsSound (!n.isObject) k c) : IsSound strict (k + 1) n

namespace IsSound

variable {strict : Bool} {k m : Nat} {n c : Node}

theorem mono (sound : n.IsSound strict k) (le : k ≤ m) : n.IsSound strict m := by
  induction sound generalizing m with
  | @intro strict k n params names _ _ core others =>
    obtain ⟨m, rfl⟩ : ∃ j, m = j + 1 := ⟨m - 1, by omega⟩
    exact ⟨params, names, fun c here => core c here le, fun c here => others c here (by omega)⟩

theorem loosen (sound : n.IsSound true k) : n.IsSound strict k := by
  obtain ⟨params, names, core, others⟩ := sound
  exact ⟨params, fun _ => names rfl, core, others⟩

theorem of_parts (params : ∀ f, n = .function f → Param.AreProper f.params)
    (names : ∀ name ∈ n.names, IsSpelled name) (parts : ∀ c ∈ n.children, c.IsSound true k) :
    n.IsSound strict (k + 1) := by
  rw [children_eq] at parts
  refine ⟨params, fun _ => names, fun c core => ?_, fun c other => ?_⟩
  · exact (parts c (List.mem_append_left _ (Option.mem_toList.2 core))).mono (by omega)
  · exact (parts c (List.mem_append_right _ other)).loosen

section

variable (plain : n.isPlain = true)

include plain

theorem plain_params : ∀ f, n = .function f → Param.AreProper f.params := by
  rintro f rfl
  cases plain

theorem plain_names : ∀ name ∈ n.names, IsSpelled name := by
  unfold names
  split <;> first | cases plain | exact nofun

theorem of_children (parts : ∀ c ∈ n.children, c.IsSound true k) : n.IsSound strict (k + 1) :=
  of_parts (plain_params plain) (plain_names plain) parts

theorem leaf (none : n.children = []) : n.IsSound strict (k + 1) := by
  refine of_children plain fun c part => ?_
  rw [none] at part
  cases part

theorem of_child (only : n.children = [c]) (sound : c.IsSound true k) :
    n.IsSound strict (k + 1) := by
  refine of_children plain ?_
  rw [only]
  exact List.forall_mem_singleton.2 sound

theorem of_core (core : n.core? = some c) (sound : c.IsSound true (k + 1))
    (others : ∀ d ∈ n.others, d.IsSound true k) : n.IsSound strict (k + 1) := by
  refine ⟨plain_params plain, fun _ => plain_names plain, ?_,
    fun d other => (others d other).loosen⟩
  rw [core]
  rintro _ ⟨⟩
  exact sound

end

theorem object {properties : List (String × Expr)} {span : Span}
    (parts : ∀ p ∈ properties, (Node.expression p.2).IsSound false k) :
    (Node.expression (.object properties span)).IsSound strict (k + 1) :=
  ⟨nofun, fun _ => nofun, nofun, List.forall_mem_map.2 parts⟩

theorem identifier {id : Identifier} (spelled : IsSpelled id.name) :
    (Node.expression (.identifier id)).IsSound strict (k + 2) :=
  of_parts nofun (List.forall_mem_singleton.2 spelled) (List.forall_mem_singleton.2 (leaf rfl rfl))

theorem function {f : Function} (params : Param.AreProper f.params)
    (names : ∀ name ∈ (Node.function f).names, IsSpelled name)
    (block : (Node.block f.body).IsSound true (k + 1)) :
    (Node.function f).IsSound strict (k + 2) := by
  refine of_parts (fun g same => ?_) names fun c part => ?_
  · cases same
    exact params
  rcases List.mem_append.1 part with name | part
  · obtain ⟨i, -, rfl⟩ := List.mem_map.1 name
    exact leaf rfl rfl
  rcases List.mem_append.1 part with name | last
  · obtain ⟨p, -, rfl⟩ := List.mem_map.1 name
    exact leaf rfl rfl
  · rw [List.mem_singleton.1 last]
    exact block

/-- A part of a sound node is sound. -/
theorem child (sound : n.IsSound strict k) (part : c ∈ n.children) : c.IsSound (!n.isObject) k := by
  obtain ⟨-, -, core, others⟩ := sound
  rw [children_eq] at part
  rcases List.mem_append.1 part with here | other
  · exact (core c (Option.mem_toList.1 here)).loosen
  · exact (others c other).mono (by omega)

end IsSound

end Node

/-! ## Trees that differ only in places -/

/-- Trees that differ only in places, the first of them sound. -/
structure TreeTwin {α : Type} (node : α → Node) (unspanned : α → α) (k : Nat) (a a' : α) :
    Prop where
  same : unspanned a = unspanned a'
  sound : (node a).IsSound true k

abbrev Expr.Twin := TreeTwin Node.expression Expr.unspanned

abbrev Stmt.Twin := TreeTwin Node.statement Stmt.unspanned

abbrev Block.Twin := TreeTwin Node.block Block.unspanned

abbrev Function.Twin := TreeTwin Node.function Function.unspanned

/-- The same parameters in two places. -/
structure Param.Twin (params params' : List Param) : Prop where
  same : params.map Param.unspanned = params'.map Param.unspanned
  proper : Param.AreProper params

theorem Identifier.Twin.same {a b : Identifier} (twin : a.Twin b) : a.unspanned = b.unspanned := by
  rw [Identifier.unspanned, twin.name, Identifier.unspanned]

namespace TreeTwin

variable {α : Type} {node : α → Node} {unspanned : α → α} {k j : Nat} {a a' : α}

theorem mono (twin : TreeTwin node unspanned k a a') (le : k ≤ j) :
    TreeTwin node unspanned j a a' :=
  ⟨twin.same, twin.sound.mono le⟩

/-- Twins in a list, with a function that takes away the places in all of them. -/
theorem all {as as' : List α} (twins : List.Forall₂ (TreeTwin node unspanned k) as as')
    (unspannedAll : List α → List α)
    (cons : ∀ a as, unspannedAll (a :: as) = unspanned a :: unspannedAll as) :
    unspannedAll as = unspannedAll as' ∧ ∀ n ∈ as.map node, n.IsSound true k := by
  induction twins with
  | nil => exact ⟨rfl, nofun⟩
  | cons first _ ih =>
    refine ⟨?_, List.forall_mem_cons.2 ⟨first.sound, ih.2⟩⟩
    rw [cons, first.same, ih.1, cons]

/-- Twins that may be missing, with a function that takes away their places. -/
theorem option {o o' : Option α} (twins : Option.Rel (TreeTwin node unspanned k) o o')
    (unspanned? : Option α → Option α)
    (some : ∀ a, unspanned? (some a) = some (unspanned a)) :
    unspanned? o = unspanned? o' ∧ ∀ n ∈ o.toList.map node, n.IsSound true k := by
  cases twins with
  | none => exact ⟨rfl, nofun⟩
  | some twin =>
    refine ⟨?_, List.forall_mem_singleton.2 twin.sound⟩
    rw [some, some, twin.same]

end TreeTwin

/-- On twin streams, the readers of a level give twins. -/
structure Level.IsSound (k : Nat) (level : Level) : Prop where
  statement : Steady level.statement (Stmt.Twin k)
  expression : Steady level.expression (Expr.Twin k)
  operand : Steady level.operand (Expr.Twin k)

namespace Grammar

/-! ## Blocks and functions -/

/-- Parameters that were read so far, the last of them first, in two places. -/
structure Params.Agree (ps ps' : List Param) : Prop where
  same : ps.map Param.unspanned = ps'.map Param.unspanned
  spelled : ∀ p ∈ ps, IsSpelled p.id.name
  nodup : (ps.map (·.id.name)).Nodup

/-- Parameters after which there may be more. -/
def Params.More (ps ps' : List Param) : Prop :=
  Agree ps ps' ∧ ∀ p ∈ ps, p.isRest = false

/-- All parameters: only the last may take the other arguments. -/
def Params.Done (ps ps' : List Param) : Prop :=
  Agree ps ps' ∧ ∀ p ∈ ps.tail, p.isRest = false

namespace Params

variable {ps ps' : List Param}

/-- A name is among the parameters in one place if it is in the other. -/
theorem Agree.any_eq (agree : Agree ps ps') (name : String) :
    ps'.any (fun p => p.id.name = name) = ps.any (fun p => p.id.name = name) := by
  have names := congrArg (fun ps : List Param => (ps.map (·.id.name)).any (· = name)) agree.same
  simpa only [List.map_map, List.any_map, Function.comp_def, Param.unspanned,
    Identifier.unspanned] using names.symm

/-- One more parameter, of a name that is not among the others. -/
theorem Agree.cons {id id' : Identifier} (agree : Agree ps ps') (twin : Identifier.Twin id id')
    (fresh : ¬ps.any (fun p => p.id.name = id.name)) (isRest : Bool) :
    Agree (⟨id, isRest⟩ :: ps) (⟨id', isRest⟩ :: ps') := by
  refine ⟨?_, List.forall_mem_cons.2 ⟨twin.spelled, agree.spelled⟩,
    List.nodup_cons.2 ⟨fun member => ?_, agree.nodup⟩⟩
  · rw [List.map_cons, List.map_cons, agree.same, Param.unspanned, twin.same, Param.unspanned]
  · obtain ⟨p, here, same⟩ := List.mem_map.1 member
    exact fresh (List.any_eq_true.2 ⟨p, here, decide_eq_true same⟩)

/-- Parameters in their order. -/
theorem Done.twin (done : Done ps ps') : Param.Twin ps.reverse ps'.reverse := by
  obtain ⟨⟨same, spelled, nodup⟩, plain⟩ := done
  refine ⟨?_, fun p member => spelled p (List.mem_reverse.1 member), ?_, fun p member => ?_⟩
  · rw [List.map_reverse, same, List.map_reverse]
  · rwa [List.map_reverse, List.nodup_reverse]
  · rw [List.dropLast_reverse, List.mem_reverse] at member
    exact plain p member

end Params

theorem params_agrees : Steady params Param.Twin := by
  rw [Grammar.params]
  have start : Params.More [] [] := ⟨⟨rfl, nofun, .nil⟩, nofun⟩
  refine Agrees.bind (P := Params.Done) (.rounds (P := Params.More) (fun ps ps' more => ?_) start)
    fun ps ps' done => .expect (.pure done.twin)
  obtain ⟨agree, plain⟩ := more
  have last : ∀ p ∈ ps.tail, p.isRest = false :=
    fun p member => plain p (List.mem_of_mem_tail member)
  refine .isAt fun _ => .ite (.pure (.done ⟨agree, last⟩)) ?_
  refine .accept fun isRest => .identifier fun id id' twin => ?_
  rw [← twin.name, agree.any_eq]
  refine .ite_of (fun _ => .throw_bind _) fun fresh => ?_
  have longer := agree.cons twin fresh isRest
  refine .ite_of (fun _ => .pure (.done ⟨longer, plain⟩)) fun notRest => .accept fun _ => ?_
  refine .ite (.pure (.more ⟨longer, List.forall_mem_cons.2 ⟨?_, plain⟩⟩))
    (.pure (.done ⟨longer, plain⟩))
  exact Bool.eq_false_iff.2 notRest

/-- A function is made of its name, its parameters and its body. -/
theorem function_twin {k : Nat} {id id' : Option Identifier} {ps ps' : List Param} {b b' : Block}
    {isArrow : Bool} (name : Option.Rel Identifier.Twin id id') (params : Param.Twin ps ps')
    (body : Block.Twin (k + 1) b b') (span span' : Span) :
    Function.Twin (k + 2) ⟨id, ps, b, isArrow, span⟩ ⟨id', ps', b', isArrow, span'⟩ := by
  refine ⟨?_, .function params.proper (fun text member => ?_) body.sound⟩
  · rw [Function.unspanned, params.same, body.same, Function.unspanned]
    cases name with
    | none => rfl
    | some twin => rw [Option.map_some, twin.same, Option.map_some]
  · rcases List.mem_append.1 member with own | own
    · cases name with
      | none => cases own
      | some twin =>
        rw [List.mem_singleton.1 own]
        exact twin.spelled
    · obtain ⟨p, param, rfl⟩ := List.mem_map.1 own
      exact params.proper.spelled p param

theorem function_expr_twin {k : Nat} {f f' : Function} (twin : Function.Twin k f f') :
    Expr.Twin (k + 1) (.function f) (.function f') :=
  ⟨by rw [Expr.unspanned, twin.same, Expr.unspanned], .of_child rfl rfl twin.sound⟩

variable {k : Nat} {level : Level} (lv : level.IsSound k)
include lv

/-- One turn of a list of statements, in what both lists so far have in common. -/
theorem statementsRound_agrees {P : List Stmt → List Stmt → Prop} (isEnd : Kind → Bool)
    (longer : ∀ {body body' a a'}, P body body' → Stmt.Twin k a a' → P (a :: body) (a' :: body'))
    {body body' : List Stmt} (common : P body body') :
    Agrees (statementsRound level isEnd body) (statementsRound level isEnd body')
      (Round.Both P P) := by
  refine .current fun _ _ _ _ _ => .ite (.pure (.done common)) (.ite (.unexpected_bind _) ?_)
  refine .accept fun _ => .ite (.pure (.more common)) ?_
  exact lv.statement.bind fun a a' twin => .pure (.more (longer common twin))

theorem statements_agrees (isEnd : Kind → Bool) :
    Steady (statements level isEnd) (List.Forall₂ (Stmt.Twin k)) := by
  let Body := List.Forall₂ (Stmt.Twin k)
  rw [Grammar.statements]
  have turn : ∀ body body', Body body body' →
      Agrees (statementsRound level isEnd body) (statementsRound level isEnd body')
        (Round.Both Body Body) :=
    fun body body' => statementsRound_agrees lv isEnd fun twins twin => .cons twin twins
  exact Agrees.bind (.rounds turn .nil) fun body body' twins => .pure (List.rel_reverse twins)

theorem block_agrees : Steady (block level) (Block.Twin (k + 1)) := by
  refine .current fun _ _ _ _ _ =>
    .expect ((statements_agrees lv _).bind fun body body' twins => ?_)
  obtain ⟨same, sound⟩ := TreeTwin.all twins Stmt.unspannedAll fun _ _ => rfl
  refine .expect (.spanFrom fun _ _ => .pure ⟨?_, .of_children rfl sound⟩)
  rw [Block.unspanned, same, Block.unspanned]

theorem functionRest_agrees {id id' : Option Identifier} (name : Option.Rel Identifier.Twin id id')
    (start start' : Span) : Agrees (functionRest level id start) (functionRest level id' start')
      (Function.Twin (k + 2)) := by
  refine .expect (params_agrees.bind fun ps ps' params =>
    (block_agrees lv).bind fun b b' body => ?_)
  exact .spanFrom fun _ _ => .pure (function_twin name params body _ _)

theorem arrowRest_agrees {ps ps' : List Param} (params : Param.Twin ps ps') (start start' : Span) :
    Agrees (arrowRest level ps start) (arrowRest level ps' start') (Expr.Twin (k + 4)) := by
  have made {b b' : Block} (body : Block.Twin (k + 2) b b') : Agrees
      (do return Expr.function ⟨none, ps, b, true, ← spanFrom start⟩)
      (do return Expr.function ⟨none, ps', b', true, ← spanFrom start'⟩) (Expr.Twin (k + 4)) :=
    .spanFrom fun _ _ => .pure (function_expr_twin (function_twin .none params body _ _))
  refine .expect (.current fun _ _ _ _ _ => .ite ?_ ?_)
  · exact (block_agrees lv).bind fun b b' body => made (body.mono (by omega))
  · refine lv.expression.bind fun e e' twin => .spanFrom fun span span' => made ⟨?_, ?_⟩
    · simp [Block.unspanned, Stmt.unspannedAll, Stmt.unspanned, Expr.unspanned?, twin.same]
    · have returned : (Node.statement (.returns (some e) span)).IsSound true (k + 1) :=
        .of_child rfl rfl twin.sound
      exact .of_child rfl rfl returned

/-! ## Expressions -/

theorem parenthesised_agrees : Steady (parenthesised level) (Expr.Twin (k + 4)) := by
  have inner : Steady (bracketed level) (Expr.Twin (k + 4)) :=
    .advance (lv.expression.bind fun e e' twin => .expect (.pure (twin.mono (by omega))))
  -- parameters before an arrow, on one of two twin streams and then on the other
  have ahead {s t : Stream} (twin : s.Twin t) (arrow : isArrowAhead s = true) : ∃ ps ps' s' t',
      params s.advance = .ok (ps, s') ∧ params t.advance = .ok (ps', t') ∧ Param.Twin ps ps' ∧
        s'.Twin t' ∧ s'.current.kind = .mark .arrow := by
    unfold isArrowAhead at arrow
    split at arrow
    · next ps s' read =>
      obtain ⟨ps', t', read', twins, left⟩ := params_agrees twin.advance read
      exact ⟨ps, ps', s', t', read, read', twins, left, of_decide_eq_true arrow⟩
    · cases arrow
  intro s t e s' twin accepted
  by_cases arrow : isArrowAhead s = true
  · obtain ⟨ps, ps', s₁, t₁, read, read', twins, left, here⟩ := ahead twin arrow
    rw [parenthesised_of_arrow read here] at accepted
    rw [parenthesised_of_arrow read' (left.current.kind ▸ here)]
    exact arrowRest_agrees lv twins _ _ left accepted
  · have noArrow : isArrowAhead t ≠ true := by
      intro arrow'
      obtain ⟨ps, ps', t₁, s₁, -, read, -, left, here⟩ := ahead twin.symm arrow'
      refine arrow ?_
      rw [isArrowAhead, read]
      exact decide_eq_true (left.current.kind ▸ here)
    rw [parenthesised_of_not_isArrowAhead (Bool.eq_false_iff.2 arrow)] at accepted
    rw [parenthesised_of_not_isArrowAhead (Bool.eq_false_iff.2 noArrow)]
    exact inner twin accepted

omit lv in
theorem propertyKey_agrees : Steady propertyKey Eq := by
  refine .current fun kind _ _ _ _ => ?_
  dsimp only
  split
  · exact .advance (.pure rfl)
  · exact .advance (.pure rfl)
  · exact .propertyName fun _ _ same => .pure same

/-- A key by itself may be any text, so the name that it stands for need not be spelled. -/
theorem property_agrees : Steady (property level) fun p p' =>
    p.1 = p'.1 ∧ p.2.unspanned = p'.2.unspanned ∧
      (Node.expression p.2).IsSound false (k + 2) := by
  refine .current fun _ _ span span' _ => propertyKey_agrees.andThen fun key => .accept fun _ => ?_
  refine .ite (lv.expression.bind fun e e' twin => .pure ?_) (.pure ⟨rfl, rfl, ?_⟩)
  · exact ⟨rfl, twin.same, (twin.sound.mono (by omega)).loosen⟩
  · exact ⟨nofun, nofun, nofun, List.forall_mem_singleton.2 (.leaf rfl rfl)⟩

theorem primary_agrees : Steady (primary level) (Expr.Twin (k + 4)) := by
  have leaf {e e' : Expr} (same : e.unspanned = e'.unspanned)
      (plain : (Node.expression e).isPlain = true) (none : Node.ofExpr e = []) :
      Agrees (advance >>= fun _ => pure e) (advance >>= fun _ => pure e') (Expr.Twin (k + 4)) :=
    .advance (.pure ⟨same, .leaf plain none⟩)
  refine .current fun kind newline span span' spelled => ?_
  dsimp only
  split
  · exact leaf rfl rfl rfl
  · exact leaf rfl rfl rfl
  · exact leaf rfl rfl rfl
  · exact leaf rfl rfl rfl
  · exact leaf rfl rfl rfl
  · exact leaf rfl rfl rfl
  · exact leaf rfl rfl rfl
  · next name =>
    have named : IsSpelled name := spelled name rfl
    refine .advance (.current fun _ _ _ _ _ => .ite (arrowRest_agrees lv ?_ _ _) ?_)
    · exact ⟨rfl, List.forall_mem_singleton.2 named, List.nodup_singleton _, List.forall_mem_nil _⟩
    · exact .pure ⟨rfl, .identifier named⟩
  · have made {id id' : Option Identifier} (name : Option.Rel Identifier.Twin id id') : Agrees
        (do return Expr.function (← functionRest level id span))
        (do return Expr.function (← functionRest level id' span')) (Expr.Twin (k + 4)) :=
      (functionRest_agrees lv name _ _).bind fun f f' twin =>
        .pure ((function_expr_twin twin).mono (by omega))
    refine .advance (.current fun kind _ _ _ _ => ?_)
    dsimp only
    split
    · exact .identifier fun id id' name => made (.some name)
    · exact made .none
  · exact parenthesised_agrees lv
  · refine .advance ((Agrees.commaList lv.expression).bind fun es es' twins => ?_)
    obtain ⟨same, sound⟩ := TreeTwin.all twins Expr.unspannedAll fun _ _ => rfl
    refine .spanFrom fun _ _ => .pure ⟨?_, .of_children rfl fun n member => ?_⟩
    · rw [Expr.unspanned, same, Expr.unspanned]
    · exact (sound n member).mono (by omega)
  · refine .advance ((Agrees.commaList (property_agrees lv)).bind fun ps ps' twins => ?_)
    have parts : Expr.unspannedProperties ps = Expr.unspannedProperties ps' ∧
        ∀ p ∈ ps, (Node.expression p.2).IsSound false (k + 2) := by
      induction twins with
      | nil => exact ⟨rfl, List.forall_mem_nil _⟩
      | @cons p p' _ _ twin _ ih =>
        obtain ⟨key, same, sound⟩ := twin
        refine ⟨?_, List.forall_mem_cons.2 ⟨sound, ih.2⟩⟩
        rw [Expr.unspannedProperties, key, same, ih.1, Expr.unspannedProperties]
    refine .spanFrom fun _ _ => .pure ⟨?_, .object fun p member => ?_⟩
    · rw [Expr.unspanned, parts.1, Expr.unspanned]
    · exact (parts.2 p member).mono (by omega)
  · exact .ite (.refuse _) (.unexpected _)
  · exact .unexpected _

/-- One suffix more gives a node that is within the same bound. -/
theorem suffixes_agrees {j : Nat} (le : k ≤ j + 1) (start start' : Span) {e e' : Expr}
    (twin : Expr.Twin (j + 2) e e') :
    Agrees (suffixes level start e) (suffixes level start' e') (Expr.Twin (j + 2)) := by
  rw [Grammar.suffixes, Grammar.suffixes]
  refine .rounds (P := Expr.Twin (j + 2)) (fun e e' twin => ?_) twin
  have taken {property property' : Property} {span span' : Span}
      (same : property.unspanned = property'.unspanned)
      (name : (Node.ofProperty property).IsSound true (j + 1)) :
      Expr.Twin (j + 2) (.member ⟨e, property, span⟩) (.member ⟨e', property', span'⟩) := by
    refine ⟨by simp [Expr.unspanned, Member.unspanned, twin.same, same], ?_⟩
    have inner := List.forall_mem_singleton.2 name
    exact .of_core rfl rfl (.of_core rfl rfl twin.sound inner) (List.forall_mem_nil _)
  refine .accept fun _ => .ite ?_ (.accept fun _ => .ite ?_ (.accept fun _ => .ite ?_ ?_))
  · refine (Agrees.commaList lv.expression).bind fun es es' twins => .spanFrom fun _ _ => ?_
    obtain ⟨same, sound⟩ := TreeTwin.all twins Expr.unspannedAll fun _ _ => rfl
    refine .pure (.more ⟨by rw [Expr.unspanned, twin.same, same, Expr.unspanned], ?_⟩)
    exact .of_core rfl rfl twin.sound fun n member => (sound n member).mono le
  · refine .propertyName fun a b name =>
      .spanFrom fun _ _ => .pure (.more (taken ?_ (.leaf rfl rfl)))
    simp [Property.unspanned, Identifier.unspanned, name]
  · refine lv.expression.bind fun key key' inner => .expect (.spanFrom fun _ _ => .pure (.more ?_))
    exact taken (by rw [Property.unspanned, inner.same, Property.unspanned]) (inner.sound.mono le)
  · exact .pure (.done twin)

theorem callExpression_agrees : Steady (callExpression level) (Expr.Twin (k + 5)) := by
  refine .current fun _ _ span span' _ => .accept fun _ => .ite ?_ ?_
  · refine (primary_agrees lv).bind fun callee callee' twin => ?_
    have made {es es' : List Expr} (twins : List.Forall₂ (Expr.Twin k) es es') : Agrees
        (do suffixes level span (.new callee es (← spanFrom span)))
        (do suffixes level span' (.new callee' es' (← spanFrom span'))) (Expr.Twin (k + 5)) := by
      obtain ⟨same, sound⟩ := TreeTwin.all twins Expr.unspannedAll fun _ _ => rfl
      refine .spanFrom fun _ _ => suffixes_agrees lv (by omega) _ _ ⟨?_, .of_children rfl ?_⟩
      · rw [Expr.unspanned, twin.same, same, Expr.unspanned]
      · exact List.forall_mem_cons.2 ⟨twin.sound, fun n member => (sound n member).mono (by omega)⟩
    refine .accept fun _ => .ite ?_ (made .nil)
    exact (Agrees.commaList lv.expression).bind fun es es' twins => made twins
  · refine (primary_agrees lv).bind fun e e' twin => ?_
    exact suffixes_agrees lv (by omega) _ _ (twin.mono (by omega))

theorem operand_agrees : Steady (operand level) (Expr.Twin (k + 6)) := by
  have updated {j : Nat} {e e' : Expr} (twin : Expr.Twin j e e') (increment before : Bool)
      (span span' : Span) : Expr.Twin (j + 1) (.update increment before e span)
        (.update increment before e' span') :=
    ⟨by rw [Expr.unspanned, twin.same, Expr.unspanned], .of_child rfl rfl twin.sound⟩
  refine .current fun kind _ _ _ _ => ?_
  dsimp only
  split
  · refine .advance (lv.operand.bind fun e e' twin => .spanFrom fun _ _ => .pure ⟨?_, ?_⟩)
    · rw [Expr.unspanned, twin.same, Expr.unspanned]
    · exact .of_child rfl rfl (twin.sound.mono (by omega))
  · refine .advance (lv.operand.bind fun e e' twin => .spanFrom fun _ _ => .pure ?_)
    exact (updated twin _ _ _ _).mono (by omega)
  · refine .current fun _ _ _ _ _ => (callExpression_agrees lv).bind fun e e' twin => ?_
    refine .current fun kind newline _ _ _ => ?_
    dsimp only
    split
    · exact .advance (.spanFrom fun _ _ => .pure (updated twin _ _ _ _))
    · exact .pure (twin.mono (by omega))

/-- An operator on the right of another one binds tighter, and there are only so many
    precedences; an operator on the left costs nothing. -/
theorem binary_agrees (least : Nat) : Steady (binary level least)
    (Expr.Twin (k + (Operator.precedenceBound - least))) := by
  induction room : Operator.precedenceBound - least using Nat.strong_induction_on
    generalizing least with
  | _ room ih =>
    subst room
    rw [binary_eq]
    refine .current fun _ _ start start' _ => lv.operand.bind fun e e' first => ?_
    refine .rounds (P := Expr.Twin (k + (Operator.precedenceBound - least)))
      (fun left left' twin => ?_) (first.mono (by omega))
    refine .current fun kind _ _ _ _ => ?_
    dsimp only
    split
    · exact .pure (.done twin)
    · next op _ =>
      refine .ite_of (fun enough => ?_) fun _ => .pure (.done twin)
      have bound := op.precedence_lt
      obtain ⟨room, more⟩ : ∃ j, Operator.precedenceBound - least = j + 1 :=
        ⟨Operator.precedenceBound - least - 1, by omega⟩
      refine .advance ((ih _ (by omega) _ rfl).bind fun right right' other => ?_)
      refine .spanFrom fun _ _ => .pure (.more ?_)
      rw [more] at twin ⊢
      have tighter := (other.sound.mono (by omega : _ ≤ k + room))
      cases op with
      | binary op | logical op =>
        refine ⟨by rw [join, Expr.unspanned, twin.same, other.same, join, Expr.unspanned], ?_⟩
        exact .of_core rfl rfl twin.sound (List.forall_mem_singleton.2 tighter)

theorem conditional_agrees : Steady (conditional level) (Expr.Twin (k + 9)) := by
  refine .current fun _ _ _ _ _ => (binary_agrees lv 0).bind fun test test' first => ?_
  refine .accept fun _ => .ite ?_ (.pure (first.mono (Nat.le_succ _)))
  refine lv.expression.bind fun e e' second => .expect (lv.expression.bind fun a a' third => ?_)
  refine .spanFrom fun _ _ => .pure ⟨?_, .of_children rfl ?_⟩
  · rw [Expr.unspanned, first.same, second.same, third.same, Expr.unspanned]
  · refine List.forall_mem_cons.2 ⟨first.sound, List.forall_mem_cons.2
      ⟨second.sound.mono (by omega), List.forall_mem_singleton.2 (third.sound.mono (by omega))⟩⟩

omit lv in
/-- What is assigned to stands where the expression did. -/
theorem target_twin {e e' : Expr} {target : Target} (found : target? e = some target)
    (twin : Expr.Twin k e e') : ∃ target', target? e' = some target' ∧
      target.unspanned = target'.unspanned ∧ (Node.ofTarget target).IsSound true k ∧
      ∀ op value span, ∀ name ∈ (Node.expression (.assignment op target value span)).names,
        IsSpelled name := by
  obtain ⟨same, ⟨-, names, core, others⟩⟩ := twin
  cases e with
  | identifier id =>
    cases found
    cases e' <;> simp only [Expr.unspanned, reduceCtorEq, Expr.identifier.injEq] at same
    refine ⟨_, rfl, ?_, .leaf rfl rfl, fun _ _ _ => names rfl⟩
    rw [Target.unspanned, same, Target.unspanned]
  | member access =>
    cases found
    cases e' <;> simp only [Expr.unspanned, reduceCtorEq, Expr.member.injEq] at same
    refine ⟨_, rfl, ?_, core _ rfl, fun _ _ _ => List.forall_mem_nil _⟩
    rw [Target.unspanned, same, Target.unspanned]
  | _ => cases found

theorem expression_agrees : Steady (expression level) (Expr.Twin (k + 10)) := by
  refine .current fun _ _ _ _ _ => (conditional_agrees lv).bind fun left left' first => ?_
  refine .current fun kind _ _ _ _ => ?_
  dsimp only
  split
  · exact .pure (first.mono (by omega))
  · cases found : target? left with
    | none => exact .refuse _
    | some target =>
      obtain ⟨target', found', same, sound, names⟩ := target_twin found first
      rw [found']
      refine .advance (lv.expression.bind fun value value' second => .spanFrom fun _ _ => .pure ?_)
      refine ⟨?_, .of_parts nofun (names _ _ _) (List.forall_mem_cons.2 ⟨sound, ?_⟩)⟩
      · rw [Expr.unspanned, same, second.same, Expr.unspanned]
      · exact List.forall_mem_singleton.2 (second.sound.mono (by omega))

/-! ## Statements -/

theorem declaration_agrees (kind : DeclarationKind) :
    Steady (declaration level kind) (Stmt.Twin (k + 2)) := by
  refine .current fun _ _ _ _ _ => .advance (.identifier fun id id' name => .accept fun _ => ?_)
  refine .ite ?_ (.refuse_bind _)
  refine lv.expression.bind fun e e' twin => .isAt fun _ => .ite (.refuse_bind _) ?_
  refine .endOfStatement (.spanFrom fun _ _ => .pure ⟨?_, .of_parts nofun ?_ ?_⟩)
  · rw [Stmt.unspanned, name.same, twin.same, Stmt.unspanned]
  · exact List.forall_mem_singleton.2 name.spelled
  · exact List.forall_mem_cons.2 ⟨.leaf rfl rfl,
      List.forall_mem_singleton.2 (twin.sound.mono (by omega))⟩

theorem functionDeclaration_agrees : Steady (functionDeclaration level) (Stmt.Twin (k + 3)) := by
  refine .current fun _ _ _ _ _ => .advance (.current fun kind _ _ _ _ => ?_)
  dsimp only
  split
  · refine .identifier fun id id' name => ?_
    refine (functionRest_agrees lv (.some name) _ _).bind fun f f' twin => .pure ⟨?_, ?_⟩
    · rw [Stmt.unspanned, twin.same, Stmt.unspanned]
    · exact .of_child rfl rfl twin.sound
  · exact .refuse _

theorem conditionalStatement_agrees : Steady (conditionalStatement level) (Stmt.Twin (k + 1)) := by
  refine .current fun _ _ span span' _ =>
    .advance (.expect (lv.expression.bind fun e e' first => ?_))
  refine .expect (lv.statement.bind fun a a' second => ?_)
  have made {o o' : Option Stmt} (third : Option.Rel (Stmt.Twin k) o o') : Agrees
      (do return Stmt.conditional e a o (← spanFrom span))
      (do return Stmt.conditional e' a' o' (← spanFrom span')) (Stmt.Twin (k + 1)) := by
    obtain ⟨same, sound⟩ := TreeTwin.option third Stmt.unspanned? fun _ => rfl
    refine .spanFrom fun _ _ => .pure ⟨?_, .of_children rfl ?_⟩
    · rw [Stmt.unspanned, first.same, second.same, same, Stmt.unspanned]
    · exact List.forall_mem_cons.2 ⟨first.sound, List.forall_mem_cons.2 ⟨second.sound, sound⟩⟩
  refine .accept fun _ => .ite ?_ (made .none)
  exact lv.statement.bind fun b b' third => made (.some third)

theorem returnStatement_agrees : Steady (returnStatement level) (Stmt.Twin (k + 1)) := by
  refine .current fun _ _ span span' _ => .advance (.current fun _ _ _ _ _ => ?_)
  have made {o o' : Option Expr} (twin : Option.Rel (Expr.Twin k) o o') : Agrees
      (do
        endOfStatement
        return Stmt.returns o (← spanFrom span))
      (do
        endOfStatement
        return Stmt.returns o' (← spanFrom span')) (Stmt.Twin (k + 1)) := by
    obtain ⟨same, sound⟩ := TreeTwin.option twin Expr.unspanned? fun _ => rfl
    refine .endOfStatement (.spanFrom fun _ _ => .pure ⟨?_, .of_children rfl sound⟩)
    rw [Stmt.unspanned, same, Stmt.unspanned]
  exact .ite (made .none) (lv.expression.bind fun e e' twin => made (.some twin))

theorem whileStatement_agrees : Steady (whileStatement level) (Stmt.Twin (k + 1)) := by
  refine .current fun _ _ _ _ _ => .advance (.expect (lv.expression.bind fun e e' first => ?_))
  refine .expect (lv.statement.bind fun a a' second => .spanFrom fun _ _ => .pure ⟨?_, ?_⟩)
  · rw [Stmt.unspanned, first.same, second.same, Stmt.unspanned]
  · exact .of_children rfl (List.forall_mem_cons.2
      ⟨first.sound, List.forall_mem_singleton.2 second.sound⟩)

theorem doWhileStatement_agrees : Steady (doWhileStatement level) (Stmt.Twin (k + 1)) := by
  refine .current fun _ _ _ _ _ => .advance (lv.statement.bind fun a a' first => ?_)
  refine .expect (.expect (lv.expression.bind fun e e' second => .expect (.accept fun _ => ?_)))
  refine .spanFrom fun _ _ => .pure ⟨?_, ?_⟩
  · rw [Stmt.unspanned, first.same, second.same, Stmt.unspanned]
  · exact .of_children rfl (List.forall_mem_cons.2
      ⟨first.sound, List.forall_mem_singleton.2 second.sound⟩)

omit lv in
theorem skipParens_agrees : Steady skipParens Eq := by
  rw [Grammar.skipParens]
  refine .rounds (P := Eq) (fun depth _ same => ?_) rfl
  subst same
  refine .current fun kind _ _ _ _ => ?_
  dsimp only
  split
  · exact .unexpected _
  · exact .advance (.pure (.more rfl))
  · exact .advance (.ite (.pure (.done rfl)) (.pure (.more rfl)))
  · exact .advance (.pure (.more rfl))

theorem forInit_agrees : Steady (forInit level) (Option.Rel (Stmt.Twin (k + 2))) := by
  refine .current fun kind _ _ _ _ => ?_
  dsimp only
  split
  · exact .advance (.pure .none)
  · exact (declaration_agrees lv _).bind fun a a' twin => .pure (.some twin)
  · exact (declaration_agrees lv _).bind fun a a' twin => .pure (.some twin)
  · refine lv.expression.bind fun e e' twin => .expect (.spanFrom fun _ _ => .pure (.some ⟨?_, ?_⟩))
    · rw [Stmt.unspanned, twin.same, Stmt.unspanned]
    · exact .of_child rfl rfl (twin.sound.mono (by omega))

theorem optionalBefore_agrees (close : Mark) :
    Steady (optionalBefore level close) (Option.Rel (Expr.Twin k)) := by
  have closed {o o' : Option Expr} (twin : Option.Rel (Expr.Twin k) o o') : Agrees
      (do
        expect (.mark close)
        return o)
      (do
        expect (.mark close)
        return o') (Option.Rel (Expr.Twin k)) := .expect (.pure twin)
  refine .isAt fun _ => .ite (closed .none) ?_
  exact lv.expression.bind fun e e' twin => closed (.some twin)

omit lv in
theorem isIterationHead_twin {s t : Stream} (twin : s.Twin t) :
    isIterationHead s = isIterationHead t := by
  have rest := twin.rest
  unfold isIterationHead
  generalize s.rest = ss at rest
  generalize t.rest = ts at rest
  cases rest with
  | nil => rfl
  | @cons name name' _ _ first others =>
    obtain ⟨kind, _, _⟩ := name
    obtain ⟨_, _, _⟩ := name'
    cases first.kind
    cases others with
    | nil => cases kind <;> rfl
    | @cons word word' _ _ second _ =>
      obtain ⟨kind', _, _⟩ := word
      obtain ⟨_, _, _⟩ := word'
      cases second.kind
      cases kind <;> cases kind' <;> rfl

theorem forStatement_agrees : Steady (forStatement level) (Stmt.Twin (k + 3)) := by
  refine .current fun _ _ _ _ _ => .advance (.expect (.get fun s t twin => ?_))
  rw [← twin.current.kind, ← isIterationHead_twin twin]
  refine .ite (skipParens_agrees.andThen fun _ => lv.statement.bind fun _ _ _ => ?_) ?_
  · exact .spanFrom fun _ _ => .pure ⟨rfl, .leaf rfl rfl⟩
  refine (forInit_agrees lv).bind fun o o' first => ?_
  refine (optionalBefore_agrees lv _).bind fun u u' second => ?_
  refine (optionalBefore_agrees lv _).bind fun v v' third => lv.statement.bind fun a a' fourth => ?_
  obtain ⟨same₁, sound₁⟩ := TreeTwin.option first Stmt.unspanned? fun _ => rfl
  obtain ⟨same₂, sound₂⟩ := TreeTwin.option second Expr.unspanned? fun _ => rfl
  obtain ⟨same₃, sound₃⟩ := TreeTwin.option third Expr.unspanned? fun _ => rfl
  refine .spanFrom fun _ _ => .pure ⟨?_, .of_children rfl fun n part => ?_⟩
  · rw [Stmt.unspanned, same₁, same₂, same₃, fourth.same, Stmt.unspanned]
  · rcases List.mem_append.1 part with here | part
    · exact sound₁ n here
    rcases List.mem_append.1 part with here | part
    · exact (sound₂ n here).mono (by omega)
    rcases List.mem_append.1 part with here | part
    · exact (sound₃ n here).mono (by omega)
    · rw [List.mem_singleton.1 part]
      exact fourth.sound.mono (by omega)

theorem throwStatement_agrees : Steady (throwStatement level) (Stmt.Twin (k + 1)) := by
  refine .current fun _ _ _ _ _ => .advance (lv.expression.bind fun e e' twin => ?_)
  refine .endOfStatement (.spanFrom fun _ _ => .pure ⟨?_, .of_child rfl rfl twin.sound⟩)
  rw [Stmt.unspanned, twin.same, Stmt.unspanned]

omit lv in
theorem handlerParam_agrees : Steady handlerParam (Option.Rel Identifier.Twin) := by
  refine .accept fun _ => .ite ?_ (.pure .none)
  exact .identifier fun id id' twin => .expect (.pure (.some twin))

theorem tryStatement_agrees : Steady (tryStatement level) (Stmt.Twin (k + 2)) := by
  refine .current fun _ _ span span' _ => .advance ((block_agrees lv).bind fun b b' first => ?_)
  have made {id id' : Option Identifier} {h h' f f' : Option Block}
      (name : Option.Rel Identifier.Twin id id') (second : Option.Rel (Block.Twin (k + 1)) h h')
      (third : Option.Rel (Block.Twin (k + 1)) f f') : Agrees
      (do
        if h.isNone && f.isNone then refuse .missingHandler
        return Stmt.tries b id h f (← spanFrom span))
      (do
        if h'.isNone && f'.isNone then refuse .missingHandler
        return Stmt.tries b' id' h' f' (← spanFrom span')) (Stmt.Twin (k + 2)) := by
    have some₁ : h'.isNone = h.isNone := by cases second <;> rfl
    have some₂ : f'.isNone = f.isNone := by cases third <;> rfl
    obtain ⟨same₁, sound₁⟩ := TreeTwin.option second Block.unspanned? fun _ => rfl
    obtain ⟨same₂, sound₂⟩ := TreeTwin.option third Block.unspanned? fun _ => rfl
    have named : id.map Identifier.unspanned = id'.map Identifier.unspanned := by
      cases name with
      | none => rfl
      | some twin => exact congrArg some twin.same
    rw [some₁, some₂]
    refine .ite (.refuse_bind _)
      (.spanFrom fun _ _ => .pure ⟨?_, .of_children rfl fun n part => ?_⟩)
    · rw [Stmt.unspanned, first.same, named, same₁, same₂, Stmt.unspanned]
    rcases List.mem_cons.1 part with rfl | part
    · exact first.sound
    rcases List.mem_append.1 part with here | part
    · obtain ⟨i, -, rfl⟩ := List.mem_map.1 here
      exact .leaf rfl rfl
    rcases List.mem_append.1 part with here | here
    · exact sound₁ n here
    · exact sound₂ n here
  have finished {id id' : Option Identifier} {h h' : Option Block}
      (name : Option.Rel Identifier.Twin id id') (second : Option.Rel (Block.Twin (k + 1)) h h') :
      Agrees (do
        let f ←
          if ← accept (.keyword .finallyWord) then do pure (some (← block level)) else pure none
        if h.isNone && f.isNone then refuse .missingHandler
        return Stmt.tries b id h f (← spanFrom span))
      (do
        let f ←
          if ← accept (.keyword .finallyWord) then do pure (some (← block level)) else pure none
        if h'.isNone && f.isNone then refuse .missingHandler
        return Stmt.tries b' id' h' f (← spanFrom span')) (Stmt.Twin (k + 2)) := by
    refine .accept fun _ => .ite ?_ (made name second .none)
    exact (block_agrees lv).bind fun f f' third => made name second (.some third)
  refine .accept fun _ => .ite ?_ (finished .none .none)
  refine handlerParam_agrees.bind fun id id' name => ?_
  exact (block_agrees lv).bind fun h h' second => finished name (.some second)

omit lv in
theorem skippedStatement_agrees (construct : String) :
    Steady (skippedStatement construct) (Stmt.Twin (k + 1)) := by
  have skipped : Steady (rounds skippedRound 0) Eq := by
    refine .rounds (P := Eq) (fun depth _ same => ?_) rfl
    subst same
    refine .current fun kind _ _ _ _ => ?_
    dsimp only
    split
    · exact .pure (.done rfl)
    · exact .ite (.advance (.pure (.done rfl))) (.advance (.pure (.more rfl)))
    · exact .advance (.pure (.more rfl))
    · refine .ite (.pure (.done rfl)) (.advance ?_)
      exact .ite (.pure (.done rfl)) (.pure (.more rfl))
    · exact .advance (.pure (.more rfl))
  rw [Grammar.skippedStatement]
  refine .current fun _ _ _ _ _ => .advance (skipped.andThen fun _ => .spanFrom fun _ _ => ?_)
  exact .pure ⟨rfl, .leaf rfl rfl⟩

omit lv in
theorem wordStatement_agrees {build : Span → Stmt}
    (same : ∀ span span', (build span).unspanned = (build span').unspanned)
    (plain : ∀ span, (Node.statement (build span)).isPlain = true)
    (none : ∀ span, Node.ofStmt (build span) = []) :
    Steady (wordStatement build) (Stmt.Twin (k + 1)) := by
  refine .current fun _ _ span span' _ => .advance (.endOfStatement (.pure ?_))
  exact ⟨same span span', .leaf (plain span) (none span)⟩

theorem expressionStatement_agrees : Steady (expressionStatement level) (Stmt.Twin (k + 1)) := by
  refine .current fun _ _ _ _ _ => lv.expression.bind fun e e' twin => ?_
  refine .endOfStatement (.spanFrom fun _ _ => .pure ⟨?_, .of_child rfl rfl twin.sound⟩)
  rw [Stmt.unspanned, twin.same, Stmt.unspanned]

theorem statement_agrees : Steady (statement level) (Stmt.Twin (k + 3)) := by
  have weaker {r : Reader Stmt} {j : Nat} (h : Steady r (Stmt.Twin j)) (le : j ≤ k + 3) :
      Steady r (Stmt.Twin (k + 3)) :=
    h.mono fun a a' twin => twin.mono le
  refine .current fun kind _ _ _ _ => ?_
  dsimp only
  split
  · exact weaker (declaration_agrees lv _) (by omega)
  · exact weaker (declaration_agrees lv _) (by omega)
  · exact .refuse _
  · exact functionDeclaration_agrees lv
  · exact weaker (conditionalStatement_agrees lv) (by omega)
  · exact weaker (returnStatement_agrees lv) (by omega)
  · refine (block_agrees lv).bind fun b b' twin => .pure ⟨?_, ?_⟩
    · rw [Stmt.unspanned, twin.same, Stmt.unspanned]
    · exact .of_child rfl rfl (twin.sound.mono (by omega))
  · exact weaker (whileStatement_agrees lv) (by omega)
  · exact weaker (doWhileStatement_agrees lv) (by omega)
  · exact forStatement_agrees lv
  · exact wordStatement_agrees (fun _ _ => rfl) (fun _ => rfl) fun _ => rfl
  · exact wordStatement_agrees (fun _ _ => rfl) (fun _ => rfl) fun _ => rfl
  · exact weaker (throwStatement_agrees lv) (by omega)
  · exact weaker (tryStatement_agrees lv) (by omega)
  · exact skippedStatement_agrees _
  · exact skippedStatement_agrees _
  · exact skippedStatement_agrees _
  · exact skippedStatement_agrees _
  · exact skippedStatement_agrees _
  · exact weaker (expressionStatement_agrees lv) (by omega)

end Grammar

/-- A level adds at most ten steps to those of the level below. -/
theorem Level.isSound_ofDepth (depth : Nat) : (Level.ofDepth depth).IsSound (10 * depth) := by
  induction depth with
  | zero => exact ⟨.refuse _, .refuse _, .refuse _⟩
  | succ depth ih =>
    refine ⟨?_, Grammar.expression_agrees ih, ?_⟩
    · exact (Grammar.statement_agrees ih).mono fun a a' twin => twin.mono (by omega)
    · exact (Grammar.operand_agrees ih).mono fun e e' twin => twin.mono (by omega)

/-- On twin streams a program is read the same way, and it is sound. -/
theorem Program.reader_agrees : Steady Program.reader fun p p' =>
    p.unspanned = p'.unspanned ∧ (Node.program p).IsSound true (10 * maxNesting + 1) := by
  refine .current fun _ _ _ _ _ => ?_
  refine (Grammar.statements_agrees (Level.isSound_ofDepth _) _).bind fun body body' twins => ?_
  obtain ⟨same, sound⟩ := TreeTwin.all twins Stmt.unspannedAll fun _ _ => rfl
  refine .spanFrom fun _ _ => .pure ⟨?_, .of_children rfl sound⟩
  rw [Program.unspanned, same, Program.unspanned]

/-- What is read from a text is sound. -/
theorem Program.sound_of_read {text : String} {p : Program} (accepted : Program.read text = .ok p) :
    (Node.program p).IsSound true (10 * maxNesting + 1) := by
  have tokens : ∀ t ∈ (Scanner.ofText text).next.1 ::
      (if (Scanner.ofText text).next.1.kind = .eof then []
        else (Scanner.ofText text).next.2.tokensAfter []), t.kind.IsSpelled := by
    refine List.forall_mem_cons.2 ⟨Scanner.next_isSpelled _, ?_⟩
    split
    · exact nofun
    · exact Scanner.tokensAfter_isSpelled nofun
  unfold Program.read at accepted
  dsimp only at accepted
  cases read : Program.reader (Stream.ofTokens _ _) with
  | error refusal =>
    rw [read] at accepted
    cases accepted
  | ok result =>
    rw [read] at accepted
    cases accepted
    obtain ⟨_, _, -, ⟨-, sound⟩, -⟩ := Program.reader_agrees (.refl tokens) read
    exact sound

/-- Every node of a program that was read is sound. -/
theorem Program.HasNode.sound {text : String} {p : Program} {n : Node} (node : p.HasNode n)
    (accepted : Program.read text = .ok p) : ∃ strict, n.IsSound strict (10 * maxNesting + 1) := by
  induction node with
  | root => exact ⟨true, Program.sound_of_read accepted⟩
  | child _ member ih =>
    obtain ⟨_, sound⟩ := ih
    exact ⟨_, sound.child member⟩

end SourceMachine

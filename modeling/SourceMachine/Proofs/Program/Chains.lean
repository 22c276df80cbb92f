import SourceMachine.Proofs.Program.OneExpression
import SourceMachine.Proofs.Program.Wrapping

/-!
# Chains of nodes

A chain of nodes leads down the tree of a program, from a node to a part of it, to a part of
that, and so on.  The bound on the nesting bounds how often such a chain leaves the core of a
node aside: every chain is made of few runs, and in a run each node is the core of the one before
(`chains_are_made_of_few_runs`).

The chain itself has no bound.  Each loop that wraps what was read so far may turn as often as
the text goes on, and one more turn is one more step in a run (`Turn.exists_read`).
-/

namespace SourceMachine

/-- Nodes of a program, each a part of the one before. -/
structure Program.HasChain (p : Program) (chain : List Node) : Prop where
  starts : ∀ n ∈ chain.head?, p.HasNode n
  linked : chain.IsChain fun whole part => part ∈ whole.children

/-! ## Loops that wrap what they have read -/

/-- One more turn of a loop: an operator with its right operand, a call, a member. -/
inductive Turn where
  | operator
  | call
  | member
deriving DecidableEq, Repr

/-- A run of at least so many steps leads down from the expression. -/
def Expr.HasRun (n : Nat) (e : Expr) : Prop :=
  ∃ run, (Node.expression e :: run).IsChain (fun whole part => whole.core? = some part) ∧
    n ≤ run.length

namespace Expr.HasRun

variable {n m : Nat} {e : Expr}

theorem zero (e : Expr) : e.HasRun 0 :=
  ⟨[], .singleton _, Nat.zero_le _⟩

theorem mono (h : e.HasRun n) (le : m ≤ n) : e.HasRun m := by
  obtain ⟨run, cores, long⟩ := h
  exact ⟨run, cores, le.trans long⟩

/-- A node around an expression has a run of one more step. -/
theorem wrap {whole : Expr} (h : e.HasRun n)
    (core : (Node.expression whole).core? = some (.expression e)) : whole.HasRun (n + 1) := by
  obtain ⟨run, cores, long⟩ := h
  exact ⟨.expression e :: run, List.isChain_cons_cons.2 ⟨core, cores⟩, Nat.succ_le_succ long⟩

theorem member {access : Member} (h : access.object.HasRun n) :
    (Expr.member access).HasRun (n + 1) := by
  obtain ⟨run, cores, long⟩ := h
  refine ⟨.member access :: .expression access.object :: run, ?_, ?_⟩
  · exact List.isChain_cons_cons.2 ⟨rfl, List.isChain_cons_cons.2 ⟨rfl, cores⟩⟩
  · simp only [List.length_cons]
    omega

end Expr.HasRun

namespace Turn

open Reader Grammar Outline

/-- A name that is one letter long. -/
def letter : Name :=
  ⟨"f", by decide, by decide⟩

/-- What one more turn reads. -/
def words : Turn → List Word
  | .operator => [.mark .plus, .name letter]
  | .call => [.mark .lParen, .mark .rParen]
  | .member => [.mark .dot, .name letter]

/-- A name, and then so many turns. -/
def phrase (turn : Turn) (n : Nat) : List Word :=
  .name letter :: (List.replicate n turn.words).flatten

/-- The text of a phrase. -/
def text (turn : Turn) (n : Nat) : String :=
  String.ofList (spaced (turn.phrase n))

/-- A loop each of whose turns adds a step to the run. -/
theorem rounds_hasRun {round : Expr → Reader (Round Expr Expr)} {words : List Word}
    {ends : Kind → Bool} (ends' : Kind → Bool) (opens : Opens words ends')
    (meets : ∀ k, ends k = true → ends' k = true)
    (done : ∀ m e, e.HasRun m → Gives (round e) [] ends True (Round.IsDone (Expr.HasRun m)))
    (more : ∀ m e, e.HasRun m →
      Gives (round e) words ends' True (Round.IsMore (Expr.HasRun (m + 1))))
    (n : Nat) {m : Nat} {e : Expr} (run : e.HasRun m) :
    Gives (rounds round e) (List.replicate n words).flatten ends True (Expr.HasRun (m + n)) := by
  induction n generalizing m e with
  | zero => exact .rounds_done (done m e run)
  | succ n ih =>
    have next : First (List.replicate n words).flatten ends (ends' · = true) := by
      cases n with
      | zero => exact .nil meets
      | succ n => exact (opens.append _).first fun _ => id
    refine (Gives.rounds_more ends' opens.ne_nil (more m e run) next fun e' run' => ?_).congr
      rfl (iff_of_eq (and_self True).symm)
    exact (ih run').mono fun e'' run'' => run''.mono (by omega)

/-! ### Calls and members -/

theorem suffixes_hasRun {turn : Turn} (suffix : turn ≠ .operator) (start : Span) (n depth : Nat)
    (e : Expr) : Gives (suffixes (Level.ofDepth depth) start e)
      (List.replicate n turn.words).flatten endsCall True (Expr.HasRun n) := by
  refine (rounds_hasRun (fun _ => true) ?_ (fun _ _ => rfl) ?_ ?_ n (.zero e)).mono
    fun e run => run.mono (by omega)
  · cases turn <;> exact ⟨_, _, rfl, rfl⟩
  · intro m e run
    refine .decline (.nil fun k ended => (endsCall_iff.1 ended).2.1) ?_
    refine .decline (.nil fun k ended => (endsCall_iff.1 ended).2.2.1) ?_
    refine .decline (.nil fun k ended => (endsCall_iff.1 ended).2.2.2) ?_
    exact .pure run
  · intro m e run
    cases turn with
    | operator => contradiction
    | call =>
      have none := (@Expr.Reads.arguments [] nofun depth).congr rfl
        (iff_of_true trivial (Nat.zero_le depth))
      refine .accept (w := .mark .lParen) (none.bind_last (fun _ => id) fun args _ => ?_)
      exact .spanFrom fun span => .pure (run.wrap rfl)
    | member =>
      refine .decline (.cons (by simp)) (.accept (w := .mark .dot) (.propertyName fun id _ => ?_))
      exact .spanFrom fun span => .pure (.member run)

theorem operand_hasRun {turn : Turn} (suffix : turn ≠ .operator) (n depth : Nat) :
    Gives (operand (Level.ofDepth depth)) (turn.phrase n) endsOperand True (Expr.HasRun n) := by
  have opens : Opens (turn.phrase n) opensOperand := ⟨_, _, rfl, rfl⟩
  refine operand_of_call opens ?_
  unfold callExpression
  refine .start fun t => .decline (opens.first fun k plain => (opensOperand_iff.1 plain).2.2) ?_
  have name := Expr.reads (.identifier letter) depth
  refine ((name.congr rfl (by simp [Expr.nesting])).bind ?_ fun e _ =>
    suffixes_hasRun suffix t.span n depth e).congr rfl (iff_of_eq (and_self True).symm)
  cases n with
  | zero => exact .nil fun k ended => (endsCall_iff.1 ended).1
  | succ n => cases turn <;> first | contradiction | exact .cons (by decide)

/-! ### Operators -/

variable {level : Level}

/-- The token after an operand is no operator that binds tighter than a sum. -/
def endsSummand (k : Kind) : Bool :=
  endsOperand k && (operator? k).all (·.precedence ≤ (Operator.binary .add).precedence)

/-- The right operand of a sum is an operand, whatever summands follow. -/
theorem binary_of_summand {words : List Word} {P : Expr → Prop}
    (operand : Gives level.operand words endsOperand True P) :
    Gives (binary level ((Operator.binary .add).precedence + 1)) words endsSummand True P := by
  rw [binary]
  refine .start fun t => operand.bind_last (fun k ended => (Bool.and_eq_true_iff.1 ended).1)
    fun e holds => .rounds_done ?_
  refine .current (.nil fun k ended => (Bool.and_eq_true_iff.1 ended).2) fun t next => ?_
  obtain ⟨loose, -⟩ := next
  split
  · exact .pure holds
  · next op kind =>
    rw [kind, Option.all_some, decide_eq_true_eq] at loose
    rw [if_neg (by omega)]
    exact .pure holds

theorem binary_hasRun (operand : Gives level.operand [.name letter] endsOperand True fun _ => True)
    (n : Nat) :
    Gives (binary level 0) (Turn.operator.phrase n) endsBinary True (Expr.HasRun n) := by
  rw [binary]
  refine .start fun t => (operand.bind ?_ fun e _ => ?_).congr rfl
    (iff_of_eq (and_self True).symm)
  · cases n with
    | zero => exact .nil fun k ended => (endsBinary_iff.1 ended).1
    | succ n => exact .cons (by decide)
  · refine (rounds_hasRun endsSummand ⟨_, _, rfl, by decide⟩ ?_ ?_ ?_ n (.zero e)).mono
      fun e run => run.mono (by omega)
    · intro k ended
      obtain ⟨ended, none⟩ := endsBinary_iff.1 ended
      rw [endsSummand, ended, none]
      rfl
    · intro m e run
      refine .current (.nil fun k ended => (endsBinary_iff.1 ended).2) fun t next => ?_
      rw [next.1]
      exact .pure run
    · intro m e run
      refine .current (K := (· = .mark .plus)) (.cons rfl) fun t here => ?_
      rw [here.1]
      refine .advance ((binary_of_summand operand).bind_last (fun _ => id) fun right _ => ?_)
      exact .spanFrom fun span => .pure (run.wrap rfl)

/-! ### All loops -/

theorem expression_hasRun (turn : Turn) (n depth : Nat) :
    Gives (expression (Level.ofDepth (depth + 1))) (turn.phrase n) endsExpression True
      (Expr.HasRun n) := by
  refine expression_of_binary ?_
  by_cases operator : turn = .operator
  · subst operator
    refine binary_hasRun ?_ n
    exact (((Expr.reads (.identifier letter)).operand (depth + 1)).congr rfl
      (by simp [Expr.nesting])).mono fun _ _ => trivial
  · exact binary_of_operand (operand_hasRun operator n depth)

/-- However often a loop turns, the text is one expression, with a run of as many steps. -/
theorem exists_read (turn : Turn) (n : Nat) : ∃ p e span,
    Program.read (turn.text n) = .ok p ∧ p.body = [.expression e span] ∧ e.HasRun n := by
  have start : (Scanner.ofText (turn.text n)).rest =
      List.replicate 0 ' ' ++ spaced (turn.phrase n) := String.toList_ofList
  exact Program.exists_of_expression (Scanner.tokensAfter_words start) ⟨_, _, rfl, rfl⟩
    (expression_hasRun turn n (maxNesting - 3)) trivial

end Turn

/-! ## Chains -/

theorem Program.HasNode.within {p : Program} {n : Node} {k : Nat} (node : p.HasNode n)
    (whole : (Node.program p).Within k) : n.Within k := by
  induction node with
  | root => exact whole
  | child outer member ih => exact ih.child member

/-- **Chains are made of few runs.**  A chain of nodes of a program that was read is a number of
    runs that depends on the allowed nesting alone; in each run, every node is the core of the one
    before it (`Node.core?`): its left operand, its callee, or what a member is taken from. -/
theorem chains_are_made_of_few_runs {text : String} {p : Program}
    (accepted : Program.read text = .ok p) {chain : List Node} (inside : p.HasChain chain) :
    ∃ runs : List (List Node), chain = runs.flatten ∧ runs.length ≤ 10 * maxNesting + 1 ∧
      ∀ run ∈ runs, run.IsChain fun whole part => whole.core? = some part := by
  obtain ⟨starts, linked⟩ := inside
  cases chain with
  | nil => exact ⟨[], rfl, Nat.zero_le _, nofun⟩
  | cons n chain =>
    have within := (starts n rfl).within (Program.within_of_read accepted)
    obtain ⟨run, runs, rfl, few, all⟩ := within.exists_runs linked
    exact ⟨(n :: run) :: runs, rfl, few, all⟩

/-- The chain down a program that is one expression with a run. -/
theorem Expr.HasRun.exists_chain {p : Program} {e : Expr} {span : Span} {n : Nat}
    (run : e.HasRun n) (body : p.body = [.expression e span]) :
    ∃ chain, p.HasChain chain ∧ n < chain.length := by
  obtain ⟨run, cores, long⟩ := run
  have parts : (Node.expression e :: run).IsChain fun whole part => part ∈ whole.children := by
    refine cores.imp fun whole part core => ?_
    rw [Node.children_eq, core]
    exact List.mem_cons_self
  refine ⟨.program p :: .statement (.expression e span) :: .expression e :: run, ⟨?_, ?_⟩, ?_⟩
  · rintro _ ⟨⟩
    exact .root
  · refine List.isChain_cons_cons.2 ⟨?_, List.isChain_cons_cons.2 ⟨List.mem_cons_self, parts⟩⟩
    show Node.statement _ ∈ p.body.map Node.statement
    rw [body]
    exact List.mem_cons_self
  · simp only [List.length_cons]
    omega

/-- The chain down a sum, where all operators make one run. -/
theorem chains_are_made_of_few_runs_of_sum :
    ∃ p chain, Program.read "f + f + f + f " = .ok p ∧ p.HasChain chain ∧ 3 < chain.length ∧
      ∃ runs : List (List Node), chain = runs.flatten ∧ runs.length ≤ 10 * maxNesting + 1 ∧
        ∀ run ∈ runs, run.IsChain fun whole part => whole.core? = some part := by
  have text : Turn.operator.text 3 = "f + f + f + f " := by decide
  obtain ⟨p, e, span, accepted, body, run⟩ := Turn.exists_read .operator 3
  rw [text] at accepted
  obtain ⟨chain, inside, long⟩ := run.exists_chain body
  exact ⟨p, chain, accepted, inside, long, chains_are_made_of_few_runs accepted inside⟩

/-- There is no bound on the length of chains: a sum has as long a run as it has summands. -/
theorem chains_have_no_bound :
    ¬∃ bound : Nat, ∀ (text : String) (p : Program) (chain : List Node),
      Program.read text = .ok p → p.HasChain chain → chain.length ≤ bound := by
  rintro ⟨bound, all⟩
  obtain ⟨p, e, span, accepted, body, run⟩ := Turn.exists_read .operator bound
  obtain ⟨chain, inside, long⟩ := run.exists_chain body
  exact absurd (all _ p chain accepted inside) (Nat.not_le.2 long)

end SourceMachine

import SourceMachine.Proofs.Program.Position
import SourceMachine.Proofs.Program.Sound

/-!
# The names in a program

A name in a program is spelled with the characters of identifiers: every name that running the
program can read, assign or declare.  `Phrase.IsSpelled` says this of a phrase and of all that
stands in it.  It holds of sound nodes (`Node.IsSound.isSpelled`), and `Occurs.isSpelled` carries
it to every phrase of a program that was read.
-/

namespace SourceMachine

/-! ## Phrases -/

/-- The names that a phrase itself reads, assigns or declares. -/
def Phrase.names : Phrase → List String
  | .statement (.declaration _ id _ _) => [id.name]
  | .expression (.identifier id) => [id.name]
  | .expression (.assignment _ (.identifier id) _ _) => [id.name]
  | .function f => (f.id.map (·.name)).toList ++ f.params.map (·.id.name)
  | _ => []

/-- A phrase and one right below it. -/
inductive Phrase.Below : Phrase → Phrase → Prop where
  | part {a b : Phrase} (part : Part a b) : Below a b
  | inBlock {b : Block} {s : Stmt} (member : s ∈ b.body) :
      Below (.statement (.block b)) (.statement s)
  | inFunction (f : Function) : Below (.function f) (.statement (.block f.body))

/-- The names in a phrase are spelled with the characters of identifiers. -/
inductive Phrase.IsSpelled : Phrase → Prop where
  | mk {a : Phrase} (own : ∀ name ∈ a.names, SourceMachine.IsSpelled name)
      (below : ∀ b, a.Below b → IsSpelled b) : IsSpelled a

theorem Occurs.isSpelled {layers : List Layer} (h : Occurs p layers a)
    (program : ∀ s ∈ p.body, (Phrase.statement s).IsSpelled) : a.IsSpelled := by
  induction h with
  | top member => exact program _ member
  | inBlock _ member ih =>
    obtain ⟨-, below⟩ := ih
    exact below _ (.inBlock member)
  | inFunction _ ih =>
    obtain ⟨-, below⟩ := ih
    exact below _ (.inFunction _)
  | part _ part ih =>
    obtain ⟨-, below⟩ := ih
    exact below _ (.part part)

/-- The names in an expression are spelled with the characters of identifiers. -/
abbrev Expr.IsSpelled (e : Expr) : Prop := (Phrase.expression e).IsSpelled

/-- The names in a statement are spelled with the characters of identifiers. -/
abbrev Stmt.IsSpelled (s : Stmt) : Prop := (Phrase.statement s).IsSpelled

/-- The names in a function are spelled with the characters of identifiers. -/
abbrev Function.IsSpelled (f : Function) : Prop := (Phrase.function f).IsSpelled

/-- The names in a block are spelled with the characters of identifiers. -/
abbrev Block.IsSpelled (b : Block) : Prop := (Phrase.statement (.block b)).IsSpelled

/-! ## Phrases as nodes -/

/-- A phrase as a node. -/
def Phrase.node : Phrase → Node
  | .statement s => .statement s
  | .expression e => .expression e
  | .function f => .function f

theorem Phrase.names_node (a : Phrase) : a.node.names = a.names := by
  cases a with
  | statement s => cases s <;> rfl
  | expression e =>
    cases e with
    | assignment op target value span => cases target <;> rfl
    | _ => rfl
  | function f => rfl

/-- A part of a phrase is a child of it, and the phrase is no object. -/
theorem Part.mem_children {a b : Phrase} (part : Part a b) :
    b.node ∈ a.node.children ∧ a.node.isObject = false := by
  cases part <;> refine ⟨?_, rfl⟩ <;>
    simp_all [Phrase.node, Node.children, Node.ofStmt, Node.ofExpr]

/-- The names in a sound node are spelled.  A block is no phrase by itself, but a statement. -/
theorem Node.IsSound.isSpelled {strict : Bool} {k : Nat} {n : Node} (sound : n.IsSound strict k)
    (isStrict : strict = true) :
    (∀ a : Phrase, a.node = n → a.IsSpelled) ∧ ∀ b, n = .block b → b.IsSpelled := by
  induction sound with
  | @intro strict k n _ names _ _ core others =>
    have inner (c : Node) (part : c ∈ n.children) (plain : n.isObject = false) :
        (∀ a : Phrase, a.node = c → a.IsSpelled) ∧ ∀ b, c = .block b → b.IsSpelled := by
      rw [children_eq] at part
      rcases List.mem_append.1 part with here | other
      · exact core c (Option.mem_toList.1 here) rfl
      · exact others c other (by rw [plain]; rfl)
    refine ⟨fun a same => ?_, fun b same => ?_⟩
    · subst same
      refine ⟨fun name own => names isStrict name (a.names_node ▸ own), fun b below => ?_⟩
      cases below with
      | part part =>
        obtain ⟨child, plain⟩ := part.mem_children
        exact (inner _ child plain).1 b rfl
      | inBlock member =>
        obtain ⟨-, statements⟩ := (inner _ List.mem_cons_self rfl).2 _ rfl
        exact statements _ (.inBlock member)
      | inFunction f =>
        refine (inner (.block f.body) ?_ rfl).2 _ rfl
        exact List.mem_append_right _ (List.mem_append_right _ List.mem_cons_self)
    · subst same
      refine ⟨nofun, fun a below => ?_⟩
      cases below with
      | part part => cases part
      | inBlock member => exact (inner _ (List.mem_map_of_mem member) rfl).1 _ rfl

/-- Every name that running a program can read, assign or declare is spelled with the
    characters of identifiers. -/
theorem Program.IsRead.isSpelled {p : Program} (read : p.IsRead) {s : Stmt} (member : s ∈ p.body) :
    s.IsSpelled := by
  obtain ⟨text, accepted⟩ := read
  obtain ⟨-, -, -, statements⟩ := Program.sound_of_read accepted
  exact ((statements _ (List.mem_map_of_mem member)).isSpelled rfl).1 _ rfl

end SourceMachine

import SourceMachine.Proofs.Program.Nodes
import SourceMachine.Proofs.Program.Tiled
import SourceMachine.Proofs.Program.Yields

/-!
# Where nodes are placed

A node is placed if it starts where a token starts and stops where one stops, and has its
parts inside of it, in order and disjoint (`Node.IsPlaced`); it fits if all nodes below it are
placed as well and arrow functions have their arrows (`Node.Fits`).

`Between T s nodes s'` says that a reader that took the tokens from the stream `s` up to the
stream `s'` has read fitting nodes there, one after the other.  What was read first and what
was read next join (`Between.append`), and when all parts of a node were read, so was the node
(`Between.node`).  A reader that gives a node has taken a token, since a node is not empty
(`Between.passes`); that is why reading makes progress.

This module goes through every reader of the grammar once, over a level whose readers are
known to place what they read (`Level.Places`).
-/

namespace SourceMachine

open Reader

/-! ## Nodes and their places -/

/-- The node starts and stops with tokens in `T`, is not empty, and has its parts inside of it,
    in order and disjoint. -/
structure Node.IsPlaced (T : Token → Prop) (n : Node) : Prop where
  starts : ∃ t, T t ∧ n.span.start = t.span.start ∧ n.span.line = t.span.line ∧
    n.span.column = t.span.column
  stops : ∃ t, T t ∧ t.kind ≠ .eof ∧ n.span.stop = t.span.stop
  solid : n.span.start < n.span.stop
  within : ∀ c ∈ n.children, n.span.start ≤ c.span.start ∧ c.span.stop ≤ n.span.stop
  ordered : n.children.Pairwise fun c d => c.span.stop ≤ d.span.start

/-- What stands right before the arrow of a function with these parameters: a name that has the
    arrow on its line, or the end of a list in parentheses. -/
inductive HeadsArrow (last arrow : Token) (params : List Param) : Prop where
  | name {name : String} (kind : last.kind = .identifier name)
      (single : params = [⟨⟨name, last.span⟩, false⟩]) (sameLine : arrow.newlineBefore = false)
  | list (kind : last.kind = .mark .rParen)

/-- An arrow stands in `T` between the parameters and the body of the function. -/
def Function.HasArrow (T : List Token) (f : Function) : Prop :=
  ∃ last arrow first after, last :: arrow :: first :: after <:+ T ∧
    HeadsArrow last arrow f.params ∧ arrow.kind = .mark .arrow ∧
    f.body.span.start = first.span.start

/-- The node has its arrow if it is an arrow function. -/
def Node.HasArrow (T : List Token) : Node → Prop
  | .function f => f.isArrow = true → f.HasArrow T
  | _ => True

/-- The node and all nodes below it are placed, and arrow functions have their arrows. -/
inductive Node.Fits (T : List Token) : Node → Prop where
  | intro {n : Node} (placed : n.IsPlaced (· ∈ T)) (arrow : n.HasArrow T)
      (inner : ∀ c ∈ n.children, Fits T c) : Fits T n

variable {T : List Token}

theorem Node.Fits.placed {n : Node} : n.Fits T → n.IsPlaced (· ∈ T)
  | .intro placed _ _ => placed

theorem Node.Fits.hasArrow {n : Node} : n.Fits T → n.HasArrow T
  | .intro _ arrow _ => arrow

theorem Node.Fits.inner {n : Node} : n.Fits T → ∀ c ∈ n.children, c.Fits T
  | .intro _ _ inner => inner

/-- Nodes that were read between two streams, one after the other. -/
structure Between (T : List Token) (s : Stream) (nodes : List Node) (s' : Stream) : Prop where
  leads : s.Leads s'
  fits : ∀ n ∈ nodes, n.Fits T
  after : ∀ n ∈ nodes, s.current.span.start ≤ n.span.start
  before : ∀ n ∈ nodes, n.span.stop ≤ s'.previousStop
  ordered : nodes.Pairwise fun n m => n.span.stop ≤ m.span.start

/-- What was read since a stream is one node. -/
abbrev After {α : Type} (T : List Token) (s : Stream) (node : α → Node) (a : α) (s' : Stream) :
    Prop :=
  Between T s [node a] s'

namespace Between

variable {T : List Token} {s s₁ s₂ s' : Stream} {nodes nodes' : List Node} {n c : Node}

theorem none (led : s.Leads s') : Between T s [] s' :=
  ⟨led, by simp, by simp, by simp, .nil⟩

section

variable (tiled : s.IsTiled T)

include tiled

theorem append (first : Between T s nodes s₁) (second : Between T s₁ nodes' s₂) :
    Between T s (nodes ++ nodes') s₂ := by
  have tiled₁ := tiled.leads first.leads
  obtain ⟨-, start⟩ := tiled.le_of_leads first.leads
  obtain ⟨stop, -⟩ := tiled₁.le_of_leads second.leads
  have gap := tiled₁.before
  refine ⟨first.leads.trans second.leads, ?_, ?_, ?_, ?_⟩
  · intro n member
    exact (List.mem_append.1 member).elim (first.fits n) (second.fits n)
  · intro n member
    rcases List.mem_append.1 member with left | right
    · exact first.after n left
    · exact start.trans (second.after n right)
  · intro n member
    rcases List.mem_append.1 member with left | right
    · exact (first.before n left).trans stop
    · exact second.before n right
  · rw [List.pairwise_append]
    refine ⟨first.ordered, second.ordered, fun n left m right => ?_⟩
    have := first.before n left
    have := second.after m right
    omega

/-- Tokens taken before belong to no node. -/
theorem prepend (row : Between T s₁ nodes s₂) (led : s.Leads s₁) : Between T s nodes s₂ :=
  (none led).append tiled row

/-- Tokens taken after belong to no node. -/
theorem extend (row : Between T s nodes s₁) (led : s₁.Leads s₂) : Between T s nodes s₂ := by
  have whole := row.append tiled (none led)
  rwa [List.append_nil] at whole

/-- The next token belongs to no node. -/
theorem take (row : Between T s nodes s₁) (more : s₁.current.kind ≠ .eof) :
    Between T s nodes s₁.advance :=
  row.extend tiled (Stream.leads_advance more)

/-- Where a node was read, a token was taken. -/
theorem passes_of_mem (row : Between T s nodes s') (member : n ∈ nodes) : s.Passes s' := by
  rcases row.leads.eq_or_passes with rfl | passes
  · have after := row.after n member
    have before := row.before n member
    have solid := (row.fits n member).placed.solid
    have gap := tiled.before
    omega
  · exact passes

theorem passes (row : Between T s (n :: nodes) s') : s.Passes s' :=
  row.passes_of_mem tiled List.mem_cons_self

end

theorem single (led : s.Leads s') (fits : n.Fits T) (after : s.current.span.start ≤ n.span.start)
    (before : n.span.stop ≤ s'.previousStop) : Between T s [n] s' := by
  refine ⟨led, ?_, ?_, ?_, List.pairwise_singleton _ _⟩ <;> intro m member <;>
    cases List.mem_singleton.1 member
  · exact fits
  · exact after
  · exact before

/-- A node without parts that is the current token. -/
theorem token (tiled : s.IsTiled T) (more : s.current.kind ≠ .eof)
    (span : n.span = s.current.span) (leaf : n.children = [])
    (arrow : n.HasArrow T) : Between T s [n] s.advance := by
  obtain ⟨stop, -⟩ := tiled.advance_bounds more
  have known := tiled.mem
  refine single (Stream.leads_advance more) (.intro ⟨?_, ?_, ?_, ?_, ?_⟩ arrow ?_) ?_ ?_
  · exact ⟨s.current, known, by rw [span], by rw [span], by rw [span]⟩
  · exact ⟨s.current, known, more, by rw [span]⟩
  · rw [span]
    exact tiled.start_lt_stop more
  · simp [leaf]
  · simp [leaf]
  · simp [leaf]
  · rw [span]
  · rw [span, stop]

/-- A node with a single part that has the same stretch of text. -/
theorem wrap (row : Between T s [c] s') (span : n.span = c.span) (children : n.children = [c])
    (arrow : n.HasArrow T) : Between T s [n] s' := by
  have fits := row.fits c List.mem_cons_self
  obtain ⟨starts, stops, solid, -, -⟩ := fits.placed
  rw [← span] at starts stops solid
  refine single row.leads (.intro ⟨starts, stops, solid, ?_, ?_⟩ arrow ?_) ?_ ?_
  · rw [children, span]
    intro d member
    cases List.mem_singleton.1 member
    exact ⟨le_rfl, le_rfl⟩
  · rw [children]
    exact List.pairwise_singleton _ _
  · rw [children]
    exact row.fits
  · rw [span]
    exact row.after c List.mem_cons_self
  · rw [span]
    exact row.before c List.mem_cons_self

/-- A node is read when its parts are: it reaches from the first token to the last one that
    was taken. -/
theorem node (tiled : s.IsTiled T) (passes : s.Passes s') (row : Between T s n.children s')
    (span : n.span = { s.current.span with
      stop := max s'.previousStop s.current.span.start })
    (arrow : n.HasArrow T) : Between T s [n] s' := by
  obtain ⟨behind, t, known, more, stop⟩ := tiled.exists_stop passes
  have solid := tiled.start_lt_stop passes.1
  have end_eq : max s'.previousStop s.current.span.start = s'.previousStop :=
    max_eq_left (by omega)
  rw [end_eq] at span
  refine single row.leads (.intro ⟨?_, ?_, ?_, ?_, row.ordered⟩ arrow row.fits) ?_ ?_
  · exact ⟨s.current, tiled.mem, by rw [span], by rw [span], by rw [span]⟩
  · exact ⟨t, known, more, by rw [span, stop]⟩
  · rw [span]
    show s.current.span.start < s'.previousStop
    omega
  · intro d member
    rw [span]
    exact ⟨row.after d member, row.before d member⟩
  · rw [span]
  · rw [span]

/-- A node whose first token belongs to none of its parts. -/
theorem headed (tiled : s.IsTiled T) (more : s.current.kind ≠ .eof)
    (row : Between T s.advance n.children s') (span : n.span = { s.current.span with
      stop := max s'.previousStop s.current.span.start })
    (arrow : n.HasArrow T) : Between T s [n] s' := by
  have passes := Stream.passes_advance more
  exact node tiled (passes.trans_leads row.leads) (row.prepend tiled passes.leads) span arrow

end Between

/-- A token that stands for something is not the end of the text. -/
theorem Kind.ne_eof_of_some {α : Type} {f : Kind → Option α} {k : Kind} {a : α}
    (found : f k = some a) (none : f .eof = .none) : k ≠ .eof := by
  rintro rfl
  rw [none] at found
  cases found

/-! ## Readers of nodes -/

/-- At streams of a text, what the reader accepts are fitting nodes. -/
def Reader.Places {α : Type} (T : List Token) (r : Reader α) (nodes : α → List Node) : Prop :=
  ∀ ⦃s⦄, s.IsTiled T → Yields r s fun a s' => Between T s (nodes a) s'

/-- The readers of a level place what they read. -/
structure Level.Places (T : List Token) (level : Level) : Prop where
  statement : Reader.Places T level.statement fun a => [.statement a]
  expression : Reader.Places T level.expression fun a => [.expression a]
  operand : Reader.Places T level.operand fun a => [.expression a]

namespace Between

/-! A row grows to the right while a reader goes on. -/

variable {α β : Type} {T : List Token} {s s₁ : Stream} {nodes : List Node} {k : Kind}
  {Q : β → Stream → Prop} (row : Between T s nodes s₁) (tiled : s.IsTiled T) {f : Unit → Reader β}
include row tiled

theorem read {r : Reader α} {f : α → Reader β} {others : α → List Node}
    (places : Reader.Places T r others)
    (onwards : ∀ a s₂, Between T s (nodes ++ others a) s₂ → Yields (f a) s₂ Q) :
    Yields (r >>= f) s₁ Q :=
  (places (tiled.leads row.leads)).bind fun a s₂ more => onwards a s₂ (row.append tiled more)

theorem expect (solid : k ≠ .eof)
    (onwards : Between T s nodes s₁.advance → Yields (f ()) s₁.advance Q) :
    Yields (Reader.expect k >>= f) s₁ Q :=
  .expect fun here => onwards (row.take tiled (here ▸ solid))

theorem accept {f : Bool → Reader β} (solid : k ≠ .eof)
    (yes : Between T s nodes s₁.advance → Yields (f true) s₁.advance Q)
    (no : Yields (f false) s₁ Q) : Yields (Reader.accept k >>= f) s₁ Q :=
  .accept (fun here => yes (row.take tiled (here ▸ solid))) fun _ => no

section

variable {f : Identifier → Reader β}
  (onwards : ∀ id, Between T s (nodes ++ [.identifier id]) s₁.advance → Yields (f id) s₁.advance Q)

include onwards

theorem identifier : Yields (Reader.identifier >>= f) s₁ Q :=
  .identifier fun _ kind => onwards _ (row.append tiled
    (.token (tiled.leads row.leads) (by simp [kind]) rfl rfl trivial))

theorem propertyName : Yields (Reader.propertyName >>= f) s₁ Q :=
  .propertyName fun _ more => onwards _ (row.append tiled
    (.token (tiled.leads row.leads) more rfl rfl trivial))

end

/-- A statement ends with a semicolon or before the next token. -/
theorem ending (onwards : ∀ s₂, Between T s nodes s₂ → Yields (f ()) s₂ Q) :
    Yields (Reader.endOfStatement >>= f) s₁ Q :=
  .endOfStatement (fun here => onwards _ (row.take tiled (by simp [here]))) (onwards s₁ row)

end Between

/-- A round that goes on has taken a token, and one that is done may have taken some. -/
def Reader.TakesToken {α β : Type} (round : Reader (Round α β)) (s : Stream) : Prop :=
  Yields round s (Round.Ends (fun _ s' => s.Passes s') fun _ s' => s.Leads s')

section

variable {α β : Type} {T : List Token} {s : Stream} {node : α → Node}

/-- The state of a loop over items after one more round: it is as before, or one item was
    read. -/
def Grown (T : List Token) (node : α → Node) (s : Stream) (items items' : List α)
    (s' : Stream) : Prop :=
  items' = items ∧ s.Leads s' ∨ ∃ a, items' = a :: items ∧ Between T s [node a] s'

/-- One round of a loop over items reads one of them or ends, and it goes on only if it has
    taken a token. -/
def Adds (T : List Token) (node : α → Node) (s : Stream) (items : List α) :
    Round (List α) (List α) → Stream → Prop :=
  Round.Ends (fun items' s' => s.Passes s' ∧ Grown T node s items items' s')
    (Grown T node s items)

theorem Grown.between {items items' : List α} {s₀ s' : Stream}
    (row : Between T s₀ (items.reverse.map node) s) (tiled : s₀.IsTiled T)
    (grown : Grown T node s items items' s') : Between T s₀ (items'.reverse.map node) s' := by
  rcases grown with ⟨rfl, led⟩ | ⟨a, rfl, one⟩
  · exact row.extend tiled led
  · rw [List.reverse_cons, List.map_append]
    exact row.append tiled one

theorem Reader.leads_of_takesToken {round : Reader (Round α β)}
    (turn : ∀ s, TakesToken round s) : Reader.Leads round := by
  intro s out s' accepted
  cases out with
  | more state => exact (turn s accepted : s.Passes s').leads
  | done result => exact turn s accepted

theorem Reader.takesToken_of_adds {round : Reader (Round (List α) (List α))} {items : List α}
    (adds : Yields round s (Adds T node s items)) : TakesToken round s := by
  refine adds.mono fun out s' added => ?_
  cases out with
  | more items' => exact added.1
  | done items' =>
    rcases added with ⟨-, led⟩ | ⟨a, -, row⟩
    · exact led
    · exact row.leads

/-- A loop over items reads them one after the other. -/
theorem places_rounds {round : List α → Reader (Round (List α) (List α))}
    (turn : ∀ items s, s.IsTiled T → Yields (round items) s (Adds T node s items)) :
    Reader.Places T (rounds round []) fun items => items.reverse.map node := by
  intro s tiled
  refine Yields.rounds (P := fun items s' => Between T s (items.reverse.map node) s')
    (fun items s₁ row => ?_) (.none .refl)
  refine (turn items s₁ (tiled.leads row.leads)).mono fun out s₂ added => ?_
  cases out with
  | more items' => exact added.2.between row tiled
  | done items' => exact Grown.between row tiled added

end

namespace Grammar

variable {α : Type} {T : List Token} {level : Level} {s s₁ : Stream} {node : α → Node}
  {item : Reader α}

theorem commaRound_adds {close : Mark} (places : Reader.Places T item fun a => [node a])
    (tiled : s.IsTiled T) (items : List α) :
    Yields (commaRound close item items) s (Adds T node s items) := by
  refine .isAt (fun _ => .pure (.inl ⟨rfl, .refl⟩)) fun _ => ?_
  refine (places tiled).bind fun a s₁ row => row.accept tiled nofun (fun row => .pure ?_) (.pure ?_)
  · exact ⟨row.passes tiled, .inr ⟨a, rfl, row⟩⟩
  · exact .inr ⟨a, rfl, row⟩

theorem commaList_places {close : Mark} (places : Reader.Places T item fun a => [node a]) :
    Reader.Places T (commaList close item) fun items => items.map node := by
  intro s tiled
  rw [Reader.commaList]
  exact (places_rounds (fun items s tiled => commaRound_adds places tiled items) tiled).bind
    fun items s₁ row => row.expect tiled nofun fun row => .pure row

theorem paramsRound_adds (tiled : s.IsTiled T) (params : List Param) :
    Yields (paramsRound params) s (Adds T (fun p => .identifier p.id) s params) := by
  refine .isAt (fun _ => .pure (.inl ⟨rfl, .refl⟩)) fun _ => ?_
  -- the name, after the dots of a rest parameter if there are any
  have named (isRest : Bool) {s₁ : Stream} (row : Between T s [] s₁) : Yields (do
      let id ← identifier
      if params.any (·.id.name = id.name) then
        throw ⟨.duplicateParam id.name, id.span.line, id.span.column⟩
      let params := ⟨id, isRest⟩ :: params
      if isRest then return .done params
      if ← accept (.mark .comma) then return .more params else return .done params) s₁
      (Adds T (fun p => .identifier p.id) s params) := by
    refine row.identifier tiled fun id row => ?_
    refine .ite (fun _ => (Yields.throw _).bind_of_none) fun _ => ?_
    refine .ite (fun _ => .pure (.inr ⟨_, rfl, row⟩)) fun _ => ?_
    refine row.accept tiled nofun (fun row => .pure ?_) (.pure (.inr ⟨_, rfl, row⟩))
    exact ⟨row.passes tiled, .inr ⟨_, rfl, row⟩⟩
  have row : Between T s [] s := .none .refl
  exact row.accept tiled nofun (named true) (named false row)

/-- The parameters of a function, of which a closing parenthesis is the last token. -/
theorem params_yields (tiled : s.IsTiled T) :
    Yields params s fun ps s' => Between T s (ps.map fun p => .identifier p.id) s' ∧
      ∃ s₁ : Stream, s₁.IsTiled T ∧ s₁.current.kind = .mark .rParen ∧ s' = s₁.advance := by
  rw [Grammar.params]
  refine (places_rounds (fun ps s tiled => paramsRound_adds tiled ps) tiled).bind
    fun ps s₁ row => .expect fun closing => .pure ⟨?_, s₁, tiled.leads row.leads, closing, rfl⟩
  exact row.take tiled (by simp [closing])

theorem params_places : Reader.Places T params fun ps => ps.map fun p => .identifier p.id :=
  fun _ tiled => (params_yields tiled).mono fun _ _ read => read.1

variable (lv : level.Places T) {e : Expr}
include lv

theorem statementsRound_adds (isEnd : Kind → Bool) (tiled : s.IsTiled T) (body : List Stmt) :
    Yields (statementsRound level isEnd body) s (Adds T .statement s body) := by
  refine .current (.ite (fun _ => .pure (.inl ⟨rfl, .refl⟩)) fun _ => ?_)
  refine .ite (fun _ => (Yields.unexpected _).bind_of_none) fun _ =>
    .accept (fun semicolon => ?_) fun _ => ?_
  · have passes := Stream.passes_advance (s := s) (by simp [semicolon])
    exact .pure ⟨passes, .inl ⟨rfl, passes.leads⟩⟩
  · exact (lv.statement tiled).bind fun a s₁ row =>
      .pure ⟨row.passes tiled, .inr ⟨a, rfl, row⟩⟩

theorem statements_places (isEnd : Kind → Bool) :
    Reader.Places T (statements level isEnd) fun body => body.map .statement := by
  intro s tiled
  rw [Grammar.statements]
  exact (places_rounds (fun body s tiled => statementsRound_adds lv isEnd tiled body) tiled).bind
    fun body s₁ row => .pure row

theorem block_places : Reader.Places T (block level) fun b => [.block b] := by
  intro s tiled
  refine .current (.expect fun opening => ?_)
  have more : s.current.kind ≠ .eof := by simp [opening]
  have tiled₁ := tiled.advance more
  exact (statements_places lv _ tiled₁).bind fun body s₁ row =>
    row.expect tiled₁ nofun fun row => .spanFrom (.pure (.headed tiled more row rfl trivial))

omit lv in
/-- A block starts with the current token. -/
theorem block_yields_start :
    Yields (block level) s fun b _ => b.span.start = s.current.span.start := by
  refine .current (.expect fun _ => ?_)
  have any {isEnd : Kind → Bool} {s : Stream} :
      Yields (statements level isEnd) s fun _ _ => True := fun _ _ _ => trivial
  exact any.bind fun _ _ _ => .expect fun _ => .spanFrom (.pure rfl)

/-! ## Functions -/

/-- The rest of a function whose start and name were taken. -/
theorem functionRest_yields (id : Option Identifier) (tiled : s.IsTiled T)
    (name : Between T s (id.toList.map .identifier) s₁) :
    Yields (functionRest level id s.current.span) s₁ (After T s .function) := by
  refine name.expect tiled nofun fun row => row.read tiled params_places fun ps s₂ row => ?_
  refine row.read tiled (block_places lv) fun body s₃ row => .spanFrom (.pure ?_)
  have passes := row.passes_of_mem tiled (List.mem_append_right _ List.mem_cons_self)
  rw [List.append_assoc] at row
  exact .node tiled passes row rfl nofun

/-- The rest of an arrow function whose parameters were taken. -/
theorem arrowRest_yields {ps : List Param} {last : Token} (tiled : s.IsTiled T)
    (names : Between T s (ps.map fun p => .identifier p.id) s₁)
    (suffix : last :: s₁.current :: s₁.rest <:+ T) (heads : HeadsArrow last s₁.current ps) :
    Yields (arrowRest level ps s.current.span) s₁ (After T s .expression) := by
  refine .expect fun arrow => .current ?_
  have more : s₁.current.kind ≠ .eof := by simp [arrow]
  have row := names.take tiled more
  have tiled₁ := tiled.leads row.leads
  rw [(tiled.leads names.leads).ended.rest_eq more] at suffix
  -- the function is read once its body is, which starts right after the arrow
  have made {body : Block} {s₂ : Stream} (inner : Between T s₁.advance [.block body] s₂)
      (start : body.span.start = s₁.advance.current.span.start) :
      Yields (do return Expr.function ⟨none, ps, body, true, ← spanFrom s.current.span⟩) s₂
        (After T s .expression) := by
    have row := row.append tiled inner
    have passes := row.passes_of_mem tiled (List.mem_append_right _ List.mem_cons_self)
    refine .spanFrom (.pure (.wrap (c := .function _) ?_ rfl rfl trivial))
    exact .node tiled passes row rfl
      fun _ => ⟨last, s₁.current, _, _, suffix, heads, arrow, start⟩
  refine .ite (fun _ => ?_) fun _ => ?_
  · exact ((block_places lv tiled₁).and block_yields_start).bind
      fun body s₂ ⟨inner, start⟩ => made inner start
  -- an expression is the value that a block of one statement returns, all in the same place
  · refine (lv.expression tiled₁).bind fun e s₂ inner => .spanFrom ?_
    refine .pure_bind (made (.wrap (c := .statement (.returns _ _)) ?_ rfl rfl trivial) rfl)
    exact .node tiled₁ (inner.passes tiled₁) inner rfl trivial

/-! ## Expressions -/

theorem parenthesised_yields (tiled : s.IsTiled T) (opening : s.current.kind = .mark .lParen) :
    Yields (parenthesised level) s (After T s .expression) := by
  have row : Between T s [] s.advance := .none (Stream.leads_advance (by simp [opening]))
  have tiled₁ := tiled.leads row.leads
  intro e s' accepted
  by_cases ahead : isArrowAhead s = true
  · unfold isArrowAhead at ahead
    split at ahead
    · next ps s₁ read =>
      rw [parenthesised_of_arrow read (of_decide_eq_true ahead)] at accepted
      obtain ⟨names, s₂, tiled₂, closing, rfl⟩ := params_yields tiled₁ read
      have suffix := tiled₂.suffix
      rw [tiled₂.ended.rest_eq (by simp [closing])] at suffix
      exact arrowRest_yields lv tiled (row.append tiled names) suffix (.list closing) accepted
    · cases ahead
  · rw [parenthesised_of_not_isArrowAhead (Bool.eq_false_iff.2 ahead)] at accepted
    have inner : Yields (bracketed level) s (After T s .expression) :=
      .advance (row.read tiled lv.expression fun e s₁ row =>
        row.expect tiled nofun fun row => .pure row)
    exact inner accepted

omit lv in
theorem propertyKey_yields :
    Yields propertyKey s fun _ s' => s.current.kind ≠ .eof ∧ s' = s.advance := by
  refine .current ?_
  split
  · next kind => exact .advance (.pure ⟨by simp [kind], rfl⟩)
  · next kind => exact .advance (.pure ⟨by simp [kind], rfl⟩)
  · exact .propertyName fun _ more => .pure ⟨more, rfl⟩

theorem property_places :
    Reader.Places T (property level) fun (_, value) => [.expression value] := by
  intro s tiled
  refine .current (propertyKey_yields.bind ?_)
  rintro key _ ⟨more, rfl⟩
  have row : Between T s [] s.advance := .none (Stream.leads_advance more)
  refine row.accept tiled nofun (fun row => ?_) (.pure ?_)
  · exact row.read tiled lv.expression fun e s₁ row => .pure row
  · exact .wrap (c := .identifier _) (.token tiled more rfl rfl trivial) rfl rfl trivial

theorem primary_places : Reader.Places T (primary level) fun e => [.expression e] := by
  intro s tiled
  -- a literal is the current token
  have leaf {e : Expr} (more : s.current.kind ≠ .eof) (span : e.span = s.current.span)
      (parts : Node.ofExpr e = []) :
      Yields (advance >>= fun _ => pure e) s (After T s .expression) :=
    .advance (.pure (.token tiled more span parts trivial))
  refine .current ?_
  split
  · next kind => exact leaf (by simp [kind]) rfl rfl
  · next kind => exact leaf (by simp [kind]) rfl rfl
  · next kind => exact leaf (by simp [kind]) rfl rfl
  · next kind => exact leaf (by simp [kind]) rfl rfl
  · next kind => exact leaf (by simp [kind]) rfl rfl
  · next kind => exact leaf (by simp [kind]) rfl rfl
  · next kind => exact leaf (by simp [kind]) rfl rfl
  · next name kind =>
    have more : s.current.kind ≠ .eof := by simp [kind]
    have row : Between T s [.identifier ⟨name, s.current.span⟩] s.advance :=
      .token tiled more rfl rfl trivial
    refine .advance (.current (.ite (fun arrow => ?_) fun _ => .pure (.wrap row rfl rfl trivial)))
    have suffix := tiled.suffix
    rw [tiled.ended.rest_eq more] at suffix
    refine arrowRest_yields lv tiled row suffix (.name kind rfl ?_)
    simpa using (Bool.and_eq_true_iff.1 arrow).2
  · next kind =>
    have row : Between T s [] s.advance := .none (Stream.leads_advance (by simp [kind]))
    have made (id : Option Identifier) {s₁ : Stream}
        (name : Between T s (id.toList.map .identifier) s₁) :
        Yields (do return Expr.function (← functionRest level id s.current.span)) s₁
          (After T s .expression) :=
      (functionRest_yields lv id tiled name).bind fun f s₂ row => .pure (.wrap row rfl rfl trivial)
    refine .advance (.current ?_)
    split
    · exact row.identifier tiled fun id row => .pure_bind (made (some id) row)
    · exact .pure_bind (made none row)
  · next kind => exact parenthesised_yields lv tiled kind
  · next kind =>
    have more : s.current.kind ≠ .eof := by simp [kind]
    exact .advance ((commaList_places lv.expression (tiled.advance more)).bind
      fun elements s₁ row => .spanFrom (.pure (.headed tiled more row rfl trivial)))
  · next kind =>
    have more : s.current.kind ≠ .eof := by simp [kind]
    exact .advance ((commaList_places (property_places lv) (tiled.advance more)).bind
      fun properties s₁ row => .spanFrom (.pure (.headed tiled more row rfl trivial)))
  · exact .ite (fun _ => .refuse _) fun _ => .unexpected _
  · exact .unexpected _

theorem arguments_places : Reader.Places T (arguments level) fun args => args.map .expression :=
  commaList_places lv.expression

theorem takesToken_suffixRound (start : Span) (e : Expr) (tiled : s.IsTiled T) :
    TakesToken (suffixRound level start e) s := by
  have ends {nodes : List Node} {e : Span → Expr} {s₁ : Stream} (more : s.current.kind ≠ .eof)
      (row : Between T s.advance nodes s₁) :
      Yields (do return .more (e (← spanFrom start))) s₁
        (Round.Ends (fun _ s' => s.Passes s') fun (_ : Expr) s' => s.Leads s') :=
    .spanFrom (.pure ((Stream.passes_advance more).trans_leads row.leads))
  refine .accept (fun opening => ?_) fun _ => .accept (fun dot => ?_) fun _ =>
    .accept (fun opening => ?_) fun _ => .pure .refl
  · have more : s.current.kind ≠ .eof := by simp [opening]
    exact (arguments_places lv (tiled.advance more)).bind fun args s₁ row => ends more row
  · have more : s.current.kind ≠ .eof := by simp [dot]
    have row : Between T s.advance [] s.advance := .none .refl
    exact row.propertyName (tiled.advance more) fun name row => ends more row
  · have more : s.current.kind ≠ .eof := by simp [opening]
    exact (lv.expression (tiled.advance more)).bind fun key s₁ row =>
      row.expect (tiled.advance more) nofun fun row => ends more row

/-- One suffix of an expression that was read from the start on. -/
theorem suffixRound_yields (tiled : s.IsTiled T) (row : Between T s [.expression e] s₁) :
    Yields (suffixRound level s.current.span e) s₁
      (Round.Ends (fun e' s' => Between T s [.expression e'] s')
        (fun e' s' => Between T s [.expression e'] s')) := by
  have member {access : Span → Member} {s₂ : Stream}
      (row : Between T s [.expression e, .ofProperty (access {}).property] s₂)
      (object : ∀ span, access span = ⟨e, (access {}).property, span⟩) :
      Yields (do return .more (.member (access (← spanFrom s.current.span)))) s₂
        (Round.Ends (fun e' s' => Between T s [.expression e'] s')
          (fun e' s' => Between T s [.expression e'] s')) := by
    refine .spanFrom (.pure (.wrap (c := .member _) ?_ rfl rfl trivial))
    rw [object]
    exact .node tiled (row.passes tiled) row rfl trivial
  refine row.accept tiled nofun (fun row => ?_) (row.accept tiled nofun (fun row => ?_)
    (row.accept tiled nofun (fun row => ?_) (.pure row)))
  · exact row.read tiled (arguments_places lv) fun args s₂ row =>
      .spanFrom (.pure (.node tiled (row.passes tiled) row rfl trivial))
  · exact row.propertyName tiled fun name row => member row fun _ => rfl
  · exact row.read tiled lv.expression fun key s₂ row =>
      row.expect tiled nofun fun row => member row fun _ => rfl

theorem suffixes_yields (tiled : s.IsTiled T) (row : Between T s [.expression e] s₁) :
    Yields (suffixes level s.current.span e) s₁ (After T s .expression) := by
  rw [Grammar.suffixes]
  exact Yields.rounds (P := After T s .expression)
    (fun e' s₂ row' => suffixRound_yields lv tiled row') row

theorem callExpression_places :
    Reader.Places T (callExpression level) fun e => [.expression e] := by
  intro s tiled
  refine .current (.accept (fun new => ?_) fun _ => ?_)
  · have first : s.current.kind ≠ .eof := by simp [new]
    have tiled₁ := tiled.advance first
    refine (primary_places lv tiled₁).bind fun callee s₁ row => ?_
    have made (args : List Expr) {s₂ : Stream}
        (row : Between T s.advance (.expression callee :: args.map .expression) s₂) :
        Yields (do suffixes level s.current.span (.new callee args (← spanFrom s.current.span))) s₂
          (After T s .expression) :=
      .spanFrom (suffixes_yields lv tiled (.headed tiled first row rfl trivial))
    refine row.accept tiled₁ nofun (fun row => ?_) (.pure_bind (made [] row))
    exact row.read tiled₁ (arguments_places lv) fun args s₂ row => made args row
  · exact (primary_places lv tiled).bind fun e s₁ row => suffixes_yields lv tiled row

theorem postfixExpression_places :
    Reader.Places T (postfixExpression level) fun e => [.expression e] := by
  intro s tiled
  refine .current ((callExpression_places lv tiled).bind fun e s₁ row => .current ?_)
  split
  · next kind =>
    have row := row.take tiled (Kind.ne_eof_of_some kind rfl)
    exact .advance (.spanFrom (.pure (.node tiled (row.passes tiled) row rfl trivial)))
  · exact .pure row

theorem operand_places : Reader.Places T (operand level) fun e => [.expression e] := by
  intro s tiled
  refine .current ?_
  split
  · next op kind =>
    have more := Kind.ne_eof_of_some kind rfl
    exact .advance ((lv.operand (tiled.advance more)).bind
      fun a s₁ row => .spanFrom (.pure (.headed tiled more row rfl trivial)))
  · next increment _ kind =>
    have more := Kind.ne_eof_of_some kind rfl
    exact .advance ((lv.operand (tiled.advance more)).bind
      fun a s₁ row => .spanFrom (.pure (.headed tiled more row rfl trivial)))
  · exact postfixExpression_places lv tiled

omit lv in
/-- One operator and the operand on its right, when operands joined by operators of higher
    precedence are placed. -/
theorem joinRound_yields {least : Nat} (tiled : s.IsTiled T) (row : Between T s [.expression e] s₁)
    (right : ∀ op : Operator, least ≤ op.precedence →
      Reader.Places T (binary level (op.precedence + 1)) fun e => [.expression e]) :
    Yields (joinRound level least s.current.span e) s₁
      (Round.Ends (fun e' s' => Between T s [.expression e'] s')
        (fun e' s' => Between T s [.expression e'] s')) := by
  refine .current ?_
  split
  · exact .pure row
  · next op kind =>
    refine .ite (fun enough => ?_) fun _ => .pure row
    have row := row.take tiled (Kind.ne_eof_of_some kind rfl)
    refine .advance (row.read tiled (right op enough) fun e' s₂ row => .spanFrom (.pure ?_))
    cases op <;> exact .node tiled (row.passes tiled) row rfl trivial

theorem binary_places (least : Nat) :
    Reader.Places T (binary level least) fun e => [.expression e] := by
  -- each call has a higher least precedence, and these are bounded
  induction room : Operator.precedenceBound - least using Nat.strong_induction_on
    generalizing least with
  | _ n ih =>
    subst room
    intro s tiled
    rw [binary_eq]
    refine .current ((lv.operand tiled).bind fun e s₁ row => ?_)
    refine Yields.rounds (P := After T s .expression)
      (fun e' s₂ row' => ?_) row
    exact joinRound_yields tiled row' fun op (enough : least ≤ op.precedence) =>
      ih _ (by have := op.precedence_lt; omega) _ rfl

theorem takesToken_joinRound (least : Nat) (start : Span) (e : Expr) (tiled : s.IsTiled T) :
    TakesToken (joinRound level least start e) s := by
  refine .current ?_
  split
  · exact .pure .refl
  · next op kind =>
    refine .ite (fun _ => ?_) fun _ => .pure .refl
    have taken := Stream.passes_advance (Kind.ne_eof_of_some kind rfl)
    refine .advance ((binary_places lv _ (tiled.leads taken.leads)).bind fun other s₁ row => ?_)
    exact .spanFrom (.pure (taken.trans_leads row.leads))

theorem conditional_places : Reader.Places T (conditional level) fun e => [.expression e] := by
  intro s tiled
  refine .current ((binary_places lv 0 tiled).bind fun test s₁ row => ?_)
  refine row.accept tiled nofun (fun row => ?_) (.pure row)
  refine row.read tiled lv.expression fun consequent s₂ row => row.expect tiled nofun fun row => ?_
  exact row.read tiled lv.expression fun alternate s₃ row =>
    .spanFrom (.pure (.node tiled (row.passes tiled) row rfl trivial))

omit lv in
/-- What is assigned to stands where the expression did. -/
theorem target_between {target : Target} {s' : Stream} (found : target? e = some target)
    (row : Between T s [.expression e] s') : Between T s [.ofTarget target] s' := by
  have fits := row.fits _ List.mem_cons_self
  have after := row.after _ List.mem_cons_self
  have before := row.before _ List.mem_cons_self
  cases e <;> cases found
  · exact .single row.leads (fits.inner _ List.mem_cons_self) after before
  · exact .single row.leads (fits.inner _ List.mem_cons_self) after before

theorem expression_places : Reader.Places T (expression level) fun e => [.expression e] := by
  intro s tiled
  refine .current ((conditional_places lv tiled).bind fun left s₁ row => .current ?_)
  split
  · exact .pure row
  · next op kind =>
    split
    · exact .refuse _
    · next target found =>
      have row := (target_between found row).take tiled (Kind.ne_eof_of_some kind rfl)
      exact .advance (row.read tiled lv.expression fun value s₂ row =>
        .spanFrom (.pure (.node tiled (row.passes tiled) row rfl trivial)))

/-! ## Statements -/

section

variable (tiled : s.IsTiled T) (more : s.current.kind ≠ .eof)
include tiled more

theorem declaration_yields (kind : DeclarationKind) :
    Yields (declaration level kind) s (After T s .statement) := by
  have tiled₁ := tiled.advance more
  have row : Between T s.advance [] s.advance := .none .refl
  refine .current (.advance (row.identifier tiled₁ fun id row => ?_))
  refine row.accept tiled₁ nofun (fun row => ?_) (Yields.refuse _).bind_of_none
  refine row.read tiled₁ lv.expression fun init s₁ row => ?_
  exact .isAt (fun _ => (Yields.refuse _).bind_of_none) fun _ => row.ending tiled₁ fun s₂ row =>
    .spanFrom (.pure (.headed tiled more row rfl trivial))

theorem functionDeclaration_yields :
    Yields (functionDeclaration level) s (After T s .statement) := by
  have row : Between T s [] s.advance := .none (Stream.leads_advance more)
  refine .current (.advance (.current ?_))
  split
  · exact row.identifier tiled fun id row =>
      (functionRest_yields lv (some id) tiled row).bind
        fun f s₁ row => .pure (.wrap row rfl rfl trivial)
  · exact .refuse _

theorem conditionalStatement_yields :
    Yields (conditionalStatement level) s (After T s .statement) := by
  have tiled₁ := tiled.advance more
  have row : Between T s.advance [] s.advance := .none .refl
  refine .current (.advance (row.expect tiled₁ nofun fun row => ?_))
  refine row.read tiled₁ lv.expression fun test s₂ row => row.expect tiled₁ nofun fun row => ?_
  refine row.read tiled₁ lv.statement fun consequent s₃ row => ?_
  have made (alternate : Option Stmt) {s₄ : Stream}
      (row : Between T s.advance (Node.ofStmt (.conditional test consequent alternate {})) s₄) :
      Yields (do return Stmt.conditional test consequent alternate (← spanFrom s.current.span)) s₄
        (After T s .statement) :=
    .spanFrom (.pure (.headed tiled more row rfl trivial))
  refine row.accept tiled₁ nofun (fun row => ?_) (.pure_bind (made none row))
  exact row.read tiled₁ lv.statement fun alternate s₄ row => .pure_bind (made (some alternate) row)

theorem returnStatement_yields : Yields (returnStatement level) s (After T s .statement) := by
  have tiled₁ := tiled.advance more
  have made (argument : Option Expr) {s₁ : Stream}
      (row : Between T s.advance (argument.toList.map .expression) s₁) :
      Yields (do
        endOfStatement
        return Stmt.returns argument (← spanFrom s.current.span)) s₁ (After T s .statement) :=
    row.ending tiled₁ fun s₂ row => .spanFrom (.pure (.headed tiled more row rfl trivial))
  refine .current (.advance (.current ?_))
  refine .ite (fun _ => .pure_bind (made none (.none .refl))) fun _ => ?_
  exact (lv.expression tiled₁).bind fun argument s₁ row => .pure_bind (made (some argument) row)

theorem whileStatement_yields : Yields (whileStatement level) s (After T s .statement) := by
  have tiled₁ := tiled.advance more
  have row : Between T s.advance [] s.advance := .none .refl
  refine .current (.advance (row.expect tiled₁ nofun fun row => ?_))
  refine row.read tiled₁ lv.expression fun test s₂ row => row.expect tiled₁ nofun fun row => ?_
  exact row.read tiled₁ lv.statement fun body s₃ row =>
    .spanFrom (.pure (.headed tiled more row rfl trivial))

theorem doWhileStatement_yields : Yields (doWhileStatement level) s (After T s .statement) := by
  have tiled₁ := tiled.advance more
  refine .current (.advance ((lv.statement tiled₁).bind fun body s₁ row => ?_))
  refine row.expect tiled₁ nofun fun row => row.expect tiled₁ nofun fun row => ?_
  refine row.read tiled₁ lv.expression fun test s₂ row => row.expect tiled₁ nofun fun row => ?_
  have made {s₃ : Stream} (row : Between T s.advance [.statement body, .expression test] s₃) :
      Yields (do return Stmt.doWhileLoop body test (← spanFrom s.current.span)) s₃
        (After T s .statement) :=
    .spanFrom (.pure (.headed tiled more row rfl trivial))
  exact row.accept tiled₁ nofun made (made row)

end

omit lv in
theorem takesToken_parensRound (depth : Nat) : TakesToken (parensRound depth) s := by
  refine .current ?_
  split
  · exact .unexpected _
  · next kind => exact .advance (.pure (Stream.passes_advance (by simp [kind])))
  · next kind =>
    have passes := Stream.passes_advance (s := s) (by simp [kind])
    exact .advance (.ite (fun _ => .pure passes.leads) fun _ => .pure passes)
  · next other _ _ => exact .advance (.pure (Stream.passes_advance other))

omit lv in
theorem skipParens_leads : Reader.Leads skipParens := by
  rw [Grammar.skipParens]
  exact Leads.rounds (fun depth => leads_of_takesToken fun _ => takesToken_parensRound depth) 0

theorem forInit_places :
    Reader.Places T (forInit level) fun init => init.toList.map .statement := by
  intro s tiled
  refine .current ?_
  split
  · next kind => exact .advance (.pure (.none (Stream.leads_advance (by simp [kind]))))
  · next kind =>
    exact (declaration_yields lv tiled (by simp [kind]) _).bind fun a s₁ row => .pure row
  · next kind =>
    exact (declaration_yields lv tiled (by simp [kind]) _).bind fun a s₁ row => .pure row
  · exact (lv.expression tiled).bind fun e s₁ row => row.expect tiled nofun fun row =>
      .spanFrom (.pure (.node tiled (row.passes tiled) row rfl trivial))

theorem optionalBefore_places (close : Mark) :
    Reader.Places T (optionalBefore level close) fun found => found.toList.map .expression := by
  intro s tiled
  have made (found : Option Expr) {s₁ : Stream}
      (row : Between T s (found.toList.map .expression) s₁) :
      Yields (do
        expect (.mark close)
        return found) s₁ fun found s' => Between T s (found.toList.map .expression) s' :=
    row.expect tiled nofun fun row => .pure row
  refine .isAt (fun _ => .pure_bind (made none (.none .refl))) fun _ => ?_
  exact (lv.expression tiled).bind fun found s₁ row => .pure_bind (made (some found) row)

section

variable (tiled : s.IsTiled T) (more : s.current.kind ≠ .eof)
include tiled more

theorem forStatement_yields : Yields (forStatement level) s (After T s .statement) := by
  have tiled₁ := tiled.advance more
  have row : Between T s.advance [] s.advance := .none .refl
  refine .current (.advance (row.expect tiled₁ nofun fun row => .get ?_))
  refine .ite (fun _ => ?_) fun _ => ?_
  · -- of a loop over something, the body is read and forgotten
    refine Yields.bind (fun _ _ read => skipParens_leads read) fun _ s₂ skipped => ?_
    have row := row.extend tiled₁ skipped
    exact row.read tiled₁ lv.statement fun body s₃ row =>
      .spanFrom (.pure (.headed tiled more (.none row.leads) rfl trivial))
  · refine row.read tiled₁ (forInit_places lv) fun init s₂ row => ?_
    refine row.read tiled₁ (optionalBefore_places lv .semicolon) fun test s₃ row => ?_
    refine row.read tiled₁ (optionalBefore_places lv .rParen) fun update s₄ row => ?_
    refine row.read tiled₁ lv.statement fun body s₅ row => .spanFrom (.pure ?_)
    simp only [List.append_assoc] at row
    exact .headed tiled more row rfl trivial

theorem throwStatement_yields : Yields (throwStatement level) s (After T s .statement) := by
  have tiled₁ := tiled.advance more
  refine .current (.advance ((lv.expression tiled₁).bind fun argument s₁ row => ?_))
  exact row.ending tiled₁ fun s₂ row => .spanFrom (.pure (.headed tiled more row rfl trivial))

omit lv tiled more in
theorem handlerParam_places : Reader.Places T handlerParam fun id => id.toList.map .identifier := by
  intro s tiled
  have row : Between T s [] s := .none .refl
  exact row.accept tiled nofun (fun row => row.identifier tiled fun id row =>
    row.expect tiled nofun fun row => .pure row) (.pure row)

theorem tryStatement_yields : Yields (tryStatement level) s (After T s .statement) := by
  have tiled₁ := tiled.advance more
  refine .current (.advance ((block_places lv tiled₁).bind fun body s₁ row => ?_))
  have made (param : Option Identifier) (handler finalizer : Option Block) {s₃ : Stream}
      (row : Between T s.advance (Node.ofStmt (.tries body param handler finalizer {})) s₃) :
      Yields (do
        if handler.isNone && finalizer.isNone then refuse .missingHandler
        return Stmt.tries body param handler finalizer (← spanFrom s.current.span)) s₃
        (After T s .statement) :=
    .ite (fun _ => (Yields.refuse _).bind_of_none) fun _ =>
      .spanFrom (.pure (.headed tiled more row rfl trivial))
  have finished (param : Option Identifier) (handler : Option Block) {s₂ : Stream}
      (row : Between T s.advance (Node.ofStmt (.tries body param handler none {})) s₂) :
      Yields (do
        let finalizer ←
          if ← accept (.keyword .finallyWord) then do pure (some (← block level)) else pure none
        if handler.isNone && finalizer.isNone then refuse .missingHandler
        return Stmt.tries body param handler finalizer (← spanFrom s.current.span)) s₂
        (After T s .statement) := by
    refine row.accept tiled₁ nofun (fun row => ?_) (.pure_bind (made param handler none row))
    refine row.read tiled₁ (block_places lv) fun finalizer s₃ row => .pure_bind ?_
    exact made param handler (some finalizer) (by simpa [Node.ofStmt] using row)
  refine row.accept tiled₁ nofun (fun row => ?_) (.pure_bind (finished none none row))
  refine row.read tiled₁ handlerParam_places fun param s₂ row => ?_
  exact row.read tiled₁ (block_places lv) fun handler s₃ row =>
    .pure_bind (finished param (some handler) (by simpa [Node.ofStmt] using row))

omit lv tiled more in
theorem takesToken_skippedRound (depth : Nat) : TakesToken (skippedRound depth) s := by
  refine .current ?_
  split
  · exact .pure .refl
  · next kind =>
    have passes := Stream.passes_advance (s := s) (by simp [kind])
    exact .ite (fun _ => .advance (.pure passes.leads)) fun _ => .advance (.pure passes)
  · next kind => exact .advance (.pure (Stream.passes_advance (by simp [kind])))
  · next kind =>
    have passes := Stream.passes_advance (s := s) (by simp [kind])
    refine .ite (fun _ => .pure .refl) fun _ => .advance ?_
    exact .ite (fun _ => .pure passes.leads) fun _ => .pure passes
  · next other _ _ _ => exact .advance (.pure (Stream.passes_advance other))

omit lv in
theorem skippedStatement_yields (construct : String) :
    Yields (skippedStatement construct) s (After T s .statement) := by
  rw [Grammar.skippedStatement]
  have skips : Reader.Leads (rounds skippedRound 0) :=
    Leads.rounds (fun depth => leads_of_takesToken fun _ => takesToken_skippedRound depth) 0
  refine .current (.advance (Yields.bind (fun _ _ read => skips read) fun _ s₁ led => ?_))
  exact .spanFrom (.pure (.headed tiled more (.none led) rfl trivial))

omit lv in
theorem wordStatement_yields {build : Span → Stmt}
    (span : (build s.current.span).span = s.current.span)
    (leaf : Node.ofStmt (build s.current.span) = []) :
    Yields (wordStatement build) s (After T s .statement) := by
  have row : Between T s [.statement (build s.current.span)] s.advance :=
    .token tiled more span leaf trivial
  exact .current (.advance (row.ending tiled fun _ row => .pure row))

end

theorem expressionStatement_places :
    Reader.Places T (expressionStatement level) fun a => [.statement a] := by
  intro s tiled
  exact .current ((lv.expression tiled).bind fun e s₁ row => row.ending tiled fun s₂ row =>
    .spanFrom (.pure (.node tiled (row.passes tiled) row rfl trivial)))

theorem statement_places : Reader.Places T (statement level) fun a => [.statement a] := by
  intro s tiled
  refine .current ?_
  split
  · next kind => exact declaration_yields lv tiled (by simp [kind]) _
  · next kind => exact declaration_yields lv tiled (by simp [kind]) _
  · exact .refuse _
  · next kind => exact functionDeclaration_yields lv tiled (by simp [kind])
  · next kind => exact conditionalStatement_yields lv tiled (by simp [kind])
  · next kind => exact returnStatement_yields lv tiled (by simp [kind])
  · exact (block_places lv tiled).bind fun b s₁ row => .pure (.wrap row rfl rfl trivial)
  · next kind => exact whileStatement_yields lv tiled (by simp [kind])
  · next kind => exact doWhileStatement_yields lv tiled (by simp [kind])
  · next kind => exact forStatement_yields lv tiled (by simp [kind])
  · next kind => exact wordStatement_yields tiled (by simp [kind]) rfl rfl
  · next kind => exact wordStatement_yields tiled (by simp [kind]) rfl rfl
  · next kind => exact throwStatement_yields lv tiled (by simp [kind])
  · next kind => exact tryStatement_yields lv tiled (by simp [kind])
  · next kind => exact skippedStatement_yields tiled (by simp [kind]) _
  · next kind => exact skippedStatement_yields tiled (by simp [kind]) _
  · next kind => exact skippedStatement_yields tiled (by simp [kind]) _
  · next kind => exact skippedStatement_yields tiled (by simp [kind]) _
  · next kind => exact skippedStatement_yields tiled (by simp [kind]) _
  · exact expressionStatement_places lv tiled

end Grammar

/-- At every depth of nesting. -/
theorem Level.places_ofDepth (T : List Token) (depth : Nat) : (Level.ofDepth depth).Places T := by
  induction depth with
  | zero => exact ⟨fun _ _ => .refuse _, fun _ _ => .refuse _, fun _ _ => .refuse _⟩
  | succ depth below =>
    exact ⟨Grammar.statement_places below, Grammar.expression_places below,
      Grammar.operand_places below⟩

end SourceMachine

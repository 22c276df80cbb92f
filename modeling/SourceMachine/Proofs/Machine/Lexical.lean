import SourceMachine.Proofs.Machine.Additions
import SourceMachine.Proofs.Program.Position

/-!
# Lexical scope

The scopes in which a phrase is run mirror the place of the phrase in its program: one
scope for each block around it, one for the call of each function around it, then the
scope of the program, of the programs before it, and of the builtin names.

A scope does not know what it was made for, so the statement is about the record of
all scopes that a session made (`Reaches`).  `Surrounds` reads a list of scopes
against the layers of a position.  A record only grows, and nothing that was placed is
ever misplaced by that (`Surrounds.append`).  The invariant `IsLexical` asks it of
everything that may be run at some later time: the current phrase, the frames of the
stack and of every captured stack, and the closures of the heap.  A frame that has a
name to declare or to assign is placed with the phrase that the name is from.
-/

namespace SourceMachine

variable {births : List Birth} {env : Env} {c c' : Control} {m m' : Machine} {layers : List Layer}
  {p : Program} {body : List Stmt} {frame : Frame} {h h' : Heap} {rest : Stack}

/-! ## Scopes against positions -/

/-- The scopes of some programs, each started after those outside of it, and outermost
    the scope of the builtin names. -/
inductive Outermost (births : List Birth) : Env → Prop where
  | builtins {i : Nat} (born : births[i]? = some ⟨.builtins, []⟩) : Outermost births [⟨i⟩]
  | program {i : Nat} {p : Program} {outer : Env} (born : births[i]? = some ⟨.program p, outer⟩)
      (programs : Outermost births outer) : Outermost births (⟨i⟩ :: outer)

/-- The scopes around a phrase at a position in a program: a scope for each layer, then
    that of the program, and those that were outside of it when it was started. -/
inductive Surrounds (births : List Birth) (p : Program) : List Layer → Env → Prop where
  | program {i : Nat} {outer : Env} (born : births[i]? = some ⟨.program p, outer⟩)
      (programs : Outermost births outer) : Surrounds births p [] (⟨i⟩ :: outer)
  | block {i : Nat} {b : Block} {layers : List Layer} {env : Env}
      (born : births[i]? = some ⟨.block b, env⟩) (inside : Surrounds births p layers env) :
      Surrounds births p (.block b :: layers) (⟨i⟩ :: env)
  | call {i : Nat} {f : Function} {callerEnv : Env} {callerStack : Stack} {layers : List Layer}
      {env : Env} (born : births[i]? = some ⟨.call f callerEnv callerStack, env⟩)
      (inside : Surrounds births p layers env) :
      Surrounds births p (.function f :: layers) (⟨i⟩ :: env)

theorem born_append {i : Nat} {birth : Birth} (born : births[i]? = some birth) (more : List Birth) :
    (births ++ more)[i]? = some birth := by
  obtain ⟨inside, -⟩ := List.getElem?_eq_some_iff.1 born
  rw [List.getElem?_append_left inside]
  exact born

theorem Outermost.append (h : Outermost births env) (more : List Birth) :
    Outermost (births ++ more) env := by
  induction h with
  | builtins born => exact .builtins (born_append born more)
  | program born _ ih => exact .program (born_append born more) ih

theorem Surrounds.append (h : Surrounds births p layers env) (more : List Birth) :
    Surrounds (births ++ more) p layers env := by
  induction h with
  | program born programs => exact .program (born_append born more) (programs.append more)
  | block born _ ih => exact .block (born_append born more) ih
  | call born _ ih => exact .call (born_append born more) ih

theorem Outermost.lt_length (outermost : Outermost births env) :
    ∀ id ∈ env, id.index < births.length := by
  induction outermost with
  | builtins born =>
    intro id member
    obtain rfl := List.mem_singleton.1 member
    exact (List.getElem?_eq_some_iff.1 born).1
  | program born _ ih =>
    intro id member
    rcases List.mem_cons.1 member with rfl | outer
    · exact (List.getElem?_eq_some_iff.1 born).1
    · exact ih id outer

theorem Surrounds.lt_length (surrounds : Surrounds births p layers env) :
    ∀ id ∈ env, id.index < births.length := by
  induction surrounds with
  | program born programs =>
    intro id member
    rcases List.mem_cons.1 member with rfl | outer
    · exact (List.getElem?_eq_some_iff.1 born).1
    · exact programs.lt_length id outer
  | block born _ ih | call born _ ih =>
    intro id member
    rcases List.mem_cons.1 member with rfl | outer
    · exact (List.getElem?_eq_some_iff.1 born).1
    · exact ih id outer

/-- Scopes determine the position that they are around: no scope stands for two
    different layers. -/
theorem Surrounds.unique {q : Program} {layers' : List Layer} (h : Surrounds births p layers env)
    (h' : Surrounds births q layers' env) : p = q ∧ layers = layers' := by
  induction h generalizing layers' with
  | program born _ =>
    cases h' with
    | program born' _ =>
      rw [born] at born'
      cases born'
      exact ⟨rfl, rfl⟩
    | block born' _ | call born' _ =>
      rw [born] at born'
      cases born'
  | block born _ ih =>
    cases h' with
    | program born' _ | call born' _ =>
      rw [born] at born'
      cases born'
    | block born' inside' =>
      rw [born] at born'
      cases born'
      obtain ⟨rfl, rfl⟩ := ih inside'
      exact ⟨rfl, rfl⟩
  | call born _ ih =>
    cases h' with
    | program born' _ | block born' _ =>
      rw [born] at born'
      cases born'
    | call born' inside' =>
      rw [born] at born'
      cases born'
      obtain ⟨rfl, rfl⟩ := ih inside'
      exact ⟨rfl, rfl⟩

/-! ## Phrases in their scopes -/

/-- A phrase stands in a program that was read, and the scopes are those around it. -/
def Phrase.IsPlaced (births : List Birth) (env : Env) (a : Phrase) : Prop :=
  ∃ p layers, p.IsRead ∧ Occurs p layers a ∧ Surrounds births p layers env

/-- What is to be run is placed in the scopes in which it is to be run. -/
def Control.IsPlaced (births : List Birth) (env : Env) : Control → Prop
  | .program p => p.IsRead
  | .statement s => Phrase.IsPlaced births env (.statement s)
  | .expression e => Phrase.IsPlaced births env (.expression e)
  | .value _ => True

/-- What a frame has still to run is placed in the scopes that the frame keeps, and so is
    the phrase whose name the frame has still to declare or to assign. -/
def Frame.IsPlaced (births : List Birth) : Frame → Prop
  | .exec s env => Phrase.IsPlaced births env (.statement s)
  | .declare id isMutable env =>
    ∃ s, s.declared? = some (id, isMutable) ∧ Phrase.IsPlaced births env (.statement s)
  | .assign id env =>
    ∃ value span, Phrase.IsPlaced births env
      (.expression (.assignment .assign (.identifier id) value span))
  | .leftOperand _ right _ env => Phrase.IsPlaced births env (.expression right)
  | .callee arguments _ env | .argument arguments _ _ _ _ env =>
    ∀ e ∈ arguments, Phrase.IsPlaced births env (.expression e)
  | .branch consequent alternate _ env =>
    consequent.IsPlaced births env ∧ alternate.IsPlaced births env
  | .halt | .unaryOperand .. | .rightOperand .. | .apply .. | .delimiter => True

theorem Phrase.IsPlaced.part {a b : Phrase}
    (placed : a.IsPlaced births env) (part : Part a b) : b.IsPlaced births env := by
  obtain ⟨p, layers, read, occurs, surrounds⟩ := placed
  exact ⟨p, layers, read, occurs.part part, surrounds⟩

theorem Phrase.IsPlaced.append {a : Phrase} (placed : a.IsPlaced births env) (more : List Birth) :
    a.IsPlaced (births ++ more) env := by
  obtain ⟨p, layers, read, occurs, surrounds⟩ := placed
  exact ⟨p, layers, read, occurs, surrounds.append more⟩

theorem Control.IsPlaced.append (placed : c.IsPlaced births env) (more : List Birth) :
    c.IsPlaced (births ++ more) env := by
  cases c with
  | program p => exact placed
  | statement s => exact Phrase.IsPlaced.append placed more
  | expression e => exact Phrase.IsPlaced.append placed more
  | value v => trivial

theorem Frame.IsPlaced.append {f : Frame} (placed : f.IsPlaced births) (more : List Birth) :
    f.IsPlaced (births ++ more) := by
  cases f with
  | exec s env | leftOperand op right span env => exact Phrase.IsPlaced.append placed more
  | declare id isMutable env =>
    obtain ⟨s, declared, placed⟩ := placed
    exact ⟨s, declared, placed.append more⟩
  | assign id env =>
    obtain ⟨value, span, placed⟩ := placed
    exact ⟨value, span, placed.append more⟩
  | callee arguments span env | argument arguments next evaluated callee span env =>
    exact fun e member => (placed e member).append more
  | branch consequent alternate span env => exact ⟨placed.1.append more, placed.2.append more⟩
  | _ => trivial

/-! ## The heap -/

/-- The record has all scopes of the heap, and every closure and every captured stack
    of the heap is placed. -/
structure Heap.IsLexical (births : List Birth) (h : Heap) : Prop where
  recorded : births.map (·.site.label) = h.labels
  closures : ∀ c ∈ h.closures, (Phrase.function c.function).IsPlaced births c.env
  captured : ∀ k ∈ h.continuations, ∀ f ∈ k.stack.frames, f.IsPlaced births

namespace Heap

namespace IsLexical

variable {births : List Birth} {h : Heap}

variable (lexical : h.IsLexical births)

include lexical

theorem length_eq : births.length = h.scopes.size := by
  rw [← length_labels, ← lexical.recorded, List.length_map]

theorem keeps (kept : h.Keeps h') : h'.IsLexical births := by
  refine ⟨lexical.recorded.trans kept.labels.symm, ?_, ?_⟩
  · rw [kept.closures]
    exact lexical.closures
  · rw [kept.continuations]
    exact lexical.captured

theorem newScope (birth : Birth) (outer : Env) :
    (h.newScope birth.site.label outer).2.IsLexical (births ++ [birth]) := by
  refine ⟨?_, ?_, ?_⟩
  · rw [labels_newScope, ← lexical.recorded, List.map_append, List.map_singleton]
  · exact fun c member => (lexical.closures c member).append [birth]
  · exact fun k member f above => (lexical.captured k member f above).append [birth]

/-- The address of a new scope is the next place in the record. -/
theorem born_last (birth : Birth) : (births ++ [birth])[h.scopes.size]? = some birth := by
  rw [← lexical.length_eq, List.getElem?_append_right le_rfl, Nat.sub_self]
  rfl

theorem enterBody {inner : Heap} (birth : Birth) {outer : Env} {result : Except Fault Unit}
    (scope : h.newScope birth.site.label outer = (env, inner))
    (hoisted : inner.hoist env body = (result, h')) : h'.IsLexical (births ++ [birth]) := by
  have made := lexical.newScope birth outer
  rw [scope] at made
  exact made.keeps (Keeps.of_hoist hoisted)

end IsLexical

end Heap

theorem Target.assignee_eq_ok {target : Target} {op : AssignOp} {span : Span} {id : Identifier}
    (h : target.assignee op span = .ok id) : op = .assign ∧ target = .identifier id := by
  unfold Target.assignee at h
  split at h <;> cases h
  exact ⟨rfl, rfl⟩

namespace Machine

/-! ## The machine -/

/-- Everything that the machine may run at some later time is placed. -/
structure IsLexical (births : List Birth) (m : Machine) : Prop where
  heap : m.world.heap.IsLexical births
  outer : Outermost births m.outer
  stack : ∀ f ∈ m.stack.frames, f.IsPlaced births
  control : ∀ c, m.control = some c → c.IsPlaced births m.env

/-- The same of a machine in the middle of a transition, with the control apart. -/
structure IsLexicalAt (births : List Birth) (m : Machine) (c : Control) : Prop where
  heap : m.world.heap.IsLexical births
  outer : Outermost births m.outer
  stack : ∀ f ∈ m.stack.frames, f.IsPlaced births
  control : c.IsPlaced births m.env

/-- What is placed when a phrase is started: its first part, and what the frame keeps
    of the rest. -/
theorem Starts.isPlaced (start : Starts h env c c' frame) (placed : c.IsPlaced births env) :
    c'.IsPlaced births env ∧ frame.IsPlaced births := by
  cases start with
  | call callee arguments span =>
    exact ⟨placed.part (.callee callee arguments span),
      fun e member => placed.part (.argument callee span member)⟩
  | unary operand span _ => exact ⟨placed.part (.operand _ operand span), trivial⟩
  | binary left right span _ =>
    exact ⟨placed.part (.left _ left right span), placed.part (.right _ left right span)⟩
  | conjunction left right span =>
    exact ⟨placed.part (.first .and left right span),
      placed.part (.second .and left right span), trivial⟩
  | disjunction left right span =>
    exact ⟨placed.part (.first .or left right span), trivial,
      placed.part (.second .or left right span)⟩
  | choice test consequent alternate span =>
    exact ⟨placed.part (.condition test consequent alternate span),
      placed.part (.positive test consequent alternate span),
      placed.part (.negative test consequent alternate span)⟩
  | assignment value span hid =>
    obtain ⟨rfl, rfl⟩ := Target.assignee_eq_ok hid
    exact ⟨placed.part (.assigned _ _ value span), value, span, placed⟩
  | declaration init span _ => exact ⟨placed.part (.init _ _ init span), _, rfl, placed⟩
  | conditional test consequent alternate span =>
    refine ⟨placed.part (.test test consequent alternate span),
      placed.part (.consequent test consequent alternate span), ?_⟩
    cases alternate with
    | none => trivial
    | some alternate => exact placed.part (.alternate test consequent alternate span)
  | returns argument span _ =>
    refine ⟨?_, fun e member => absurd member List.not_mem_nil⟩
    cases argument with
    | none => trivial
    | some argument => exact placed.part (.returned argument span)

theorem IsLexicalAt.popped (lexical : m.IsLexicalAt births c) (top : m.stack = rest.push frame) :
    frame.IsPlaced births ∧ ∀ f ∈ rest.frames, f.IsPlaced births := by
  have all := lexical.stack
  rw [top] at all
  exact Stack.forall_of_push all

theorem placed_ofBody (statements : ∀ stmt ∈ body, (Phrase.statement stmt).IsPlaced births env) :
    (Control.ofBody body).IsPlaced births env := by
  cases body with
  | nil => trivial
  | cons first rest => exact statements first List.mem_cons_self

theorem Stmt.declared?_function {f : Function} {id : Identifier} (named : f.id = some id) :
    (Stmt.function f).declared? = some (id, false) := by
  show f.id.map (·, false) = _
  rw [named, Option.map_some]

/-! ## Transitions -/

/-- The statements of a program are placed in its new scope, inside of the scopes of the programs
    before it. -/
theorem IsLexicalAt.inProgram {s : Stmt} (lexical : m.IsLexicalAt births (.program p))
    (member : s ∈ p.body) : (Phrase.statement s).IsPlaced (births ++ [⟨.program p, m.outer⟩])
      (⟨m.world.heap.scopes.size⟩ :: m.outer) :=
  ⟨p, [], lexical.control, .top member,
    .program (lexical.heap.born_last _) (lexical.outer.append _)⟩

/-- The statements of a block are placed in its new scope, one layer further in than the block
    itself. -/
theorem IsLexicalAt.inBlock {b : Block} {s : Stmt}
    (lexical : m.IsLexicalAt births (.statement (.block b))) (member : s ∈ b.body) :
    (Phrase.statement s).IsPlaced (births ++ [⟨.block b, m.env⟩])
      (⟨m.world.heap.scopes.size⟩ :: m.env) := by
  obtain ⟨p, layers, read, occurs, surrounds⟩ := lexical.control
  exact ⟨p, .block b :: layers, read, occurs.inBlock member,
    .block (lexical.heap.born_last _) (surrounds.append _)⟩

section

variable (lexical : m.IsLexicalAt births c)

include lexical

/-- The frames that a transition adds are placed. -/
theorem Brings.isPlaced (brings : m.Brings c frame) :
    frame.IsPlaced (births ++ (m.birthOf c).toList) := by
  cases brings with
  | ofProgram member => exact lexical.inProgram member
  | ofBlock member => exact lexical.inBlock member
  | started start => exact (start.isPlaced lexical.control).2.append _
  | declared named =>
    exact ⟨_, Stmt.declared?_function named, Phrase.IsPlaced.append lexical.control _⟩
  | argument top collect =>
    obtain ⟨placed, -⟩ := lexical.popped top
    cases collect <;> exact fun e member => (placed e member).append _
  | _ => trivial

/-- What a transition goes on with is placed. -/
theorem Moves.isPlaced (move : m.Moves c c' m') :
    c'.IsPlaced (births ++ (m.birthOf c).toList) m'.env := by
  cases move with
  | program scope =>
    cases scope
    exact placed_ofBody fun s member => lexical.inProgram member
  | block scope =>
    cases scope
    exact placed_ofBody fun s member => lexical.inBlock member
  | starts start => exact (start.isPlaced lexical.control).1.append _
  | expression e span =>
    exact Phrase.IsPlaced.append (lexical.control.part (.expression e span)) _
  | exec top | leftOperand top => exact Phrase.IsPlaced.append (lexical.popped top).1 _
  | nextArgument top collect more =>
    obtain ⟨placed, -⟩ := lexical.popped top
    cases collect <;> exact (placed _ (List.mem_of_getElem? more)).append _
  | @branch v consequent alternate span env rest b top decided =>
    obtain ⟨⟨yes, no⟩, -⟩ := lexical.popped top
    cases b with
    | true => exact yes.append _
    | false => exact no.append _
  | @closure v f args span env rest c top leads counted =>
    -- the new scope is that of the call, inside of the scopes of the closure
    obtain ⟨p, layers, read, occurs, surrounds⟩ :=
      lexical.heap.closures c (Heap.mem_closures_of_callee? leads)
    rw [birthOf, calling?_of_closure top leads counted]
    exact ⟨p, .function c.function :: layers, read, occurs.inFunction,
      .call (lexical.heap.born_last _) (surrounds.append _)⟩
  | _ => trivial

/-- A transition that succeeds keeps everything placed. -/
theorem Moves.isLexical (move : m.Moves c c' m') :
    m'.IsLexicalAt (births ++ (m.birthOf c).toList) c' := by
  have before : m.AllFrames (Frame.IsPlaced births) := ⟨lexical.stack, lexical.heap.captured⟩
  have frames := move.allFrames (before.mono fun f placed => placed.append (m.birthOf c).toList)
    fun f brings => brings.isPlaced lexical
  refine ⟨⟨move.bears.recorded lexical.heap.recorded, fun closure member => ?_, frames.heap⟩, ?_,
    frames.stack, move.isPlaced lexical⟩
  · rcases move.mem_closures member with old | ⟨f, rfl, rfl | rfl⟩
    · exact (lexical.heap.closures closure old).append _
    · exact (lexical.control.part (.declared f)).append _
    · exact (lexical.control.part (.made f)).append _
  · cases move with
    | program scope =>
      cases scope
      exact .program (lexical.heap.born_last _) (lexical.outer.append _)
    | _ => exact lexical.outer.append _

/-- A transition that fails keeps everything placed that outlives it. -/
theorem Fails.isLexical {fault : Fault} (fail : m.Fails c fault m') :
    m'.world.heap.IsLexical (births ++ (m.birthOf c).toList) ∧
      Outermost (births ++ (m.birthOf c).toList) m'.outer := by
  have before : m.AllFrames (Frame.IsPlaced births) := ⟨lexical.stack, lexical.heap.captured⟩
  have after := before.mono fun f placed => placed.append (m.birthOf c).toList
  refine ⟨⟨fail.bears.recorded lexical.heap.recorded, ?_, fail.allCaptured after⟩, ?_⟩
  · rw [fail.objects.1]
    exact fun closure member => (lexical.heap.closures closure member).append _
  · cases fail with
    | program scope =>
      cases scope
      exact .program (lexical.heap.born_last _) (lexical.outer.append _)
    | _ => exact lexical.outer.append _

end

/-! ## Sessions -/

/-- A step keeps everything placed. -/
theorem Stepped.isLexical {progress : Progress} (stepped : m.Stepped progress m')
    (lexical : m.IsLexical births) : m'.IsLexical (births ++ m.birth?.toList) := by
  have initial (births : List Birth) : ∀ f ∈ Stack.initial.frames, f.IsPlaced births :=
    forall_initial trivial
  have here {c : Control} (control : m.control = some c) : m.ticked.IsLexicalAt births c :=
    ⟨lexical.heap, lexical.outer, lexical.stack, lexical.control c control⟩
  cases stepped with
  | @complete v control top =>
    rw [birth?_of_control control, birthOf_value (calling?_of_halt top), Option.toList_none,
      List.append_nil]
    exact ⟨lexical.heap, lexical.outer, lexical.stack, lexical.control⟩
  | idle control =>
    rw [birth?, control, Option.bind_none, Option.toList_none, List.append_nil]
    exact lexical
  | @proceeded c c' m' control move fits =>
    have moved := move.isLexical (here control)
    rw [birth?_of_control control]
    refine ⟨moved.heap, moved.outer, moved.stack, ?_⟩
    rintro _ ⟨rfl⟩
    exact moved.control
  | @overflow c c' m' control move deep =>
    have moved := move.isLexical (here control)
    rw [birth?_of_control control]
    exact ⟨moved.heap, moved.outer, initial _, fun _ stopped => by cases stopped⟩
  | @fault c fault m' control fail =>
    obtain ⟨heap, outer⟩ := fail.isLexical (here control)
    rw [birth?_of_control control]
    exact ⟨heap, outer, initial _, fun _ stopped => by cases stopped⟩

/-- A session keeps everything placed. -/
theorem IsLexical.reaches {start : Machine} {before : List Birth} (lexical : start.IsLexical before)
    (reached : start.Reaches births m) : m.IsLexical (before ++ births) := by
  induction reached with
  | refl =>
    rw [List.append_nil]
    exact lexical
  | step _ ih =>
    rw [← List.append_assoc]
    exact (stepped _).isLexical ih
  | load _ read ih =>
    refine ⟨ih.heap, ih.outer, forall_initial trivial, ?_⟩
    rintro _ ⟨rfl⟩
    exact ⟨_, read⟩
  | triedPreludes _ ih => exact ⟨ih.heap, ih.outer, ih.stack, ih.control⟩

theorem isLexical_new (settings : Settings) (table : Table) {world : World}
    (lexical : world.heap.IsLexical births) :
    (Machine.new settings table world).IsLexical (births ++ [⟨.builtins, []⟩]) := by
  have made := lexical.newScope ⟨.builtins, []⟩ []
  have born := lexical.born_last ⟨.builtins, []⟩
  exact ⟨made.keeps (Heap.Keeps.install table _ _), .builtins born, forall_initial trivial, nofun⟩

/-- What sessions leave behind is placed. -/
theorem isLexical_of_isLeft {allowed : Heap → Table → Prop} (left : h.IsLeft allowed births) :
    h.IsLexical births := by
  induction left with
  | blank scopes _ closures continuations =>
    refine ⟨by simp [Heap.labels, scopes], ?_, ?_⟩
    · rw [closures]
      exact fun c member => absurd member (Array.not_mem_empty c)
    · rw [continuations]
      exact fun k member => absurd member (Array.not_mem_empty k)
  | @after before births settings table world m _ _ reached ih =>
    have started := isLexical_new settings table ih
    rw [List.append_cons]
    exact (started.reaches reached).heap

/-- In every state of a session, whatever stacks were captured and resumed and whatever
    programs were run before, the scopes of the phrase that is run next are those around
    it in its program, and so are the scopes of every frame that has a phrase to run, on
    the stack or in a captured one, and of every closure.  The record tells what every
    scope was made for, and no scopes stand for two positions. -/
theorem scopes_follow_syntax {settings : Settings} {table : Table} {world : World}
    {before : List Birth} (left : world.heap.IsLeft (fun _ _ => True) before)
    (reached : (Machine.new settings table world).Reaches births m) :
    let record := before ++ ⟨.builtins, []⟩ :: births
    (∀ s, m.control = some (.statement s) → (Phrase.statement s).IsPlaced record m.env) ∧
      (∀ e, m.control = some (.expression e) → (Phrase.expression e).IsPlaced record m.env) ∧
      (∀ f ∈ m.stack.frames, f.IsPlaced record) ∧
      (∀ k ∈ m.world.heap.continuations, ∀ f ∈ k.stack.frames, f.IsPlaced record) ∧
      (∀ c ∈ m.world.heap.closures, (Phrase.function c.function).IsPlaced record c.env) ∧
      record.map (·.site.label) = m.world.heap.labels ∧
      ∀ {p q layers layers' env}, Surrounds record p layers env → Surrounds record q layers' env →
        p = q ∧ layers = layers' := by
  intro record
  have started := isLexical_new settings table (isLexical_of_isLeft left)
  have lexical := started.reaches reached
  rw [← List.append_cons] at lexical
  exact ⟨fun s control => lexical.control _ control, fun e control => lexical.control _ control,
    lexical.stack, lexical.heap.captured, lexical.heap.closures, lexical.heap.recorded,
    Surrounds.unique⟩

/-- The statement that is run next. -/
def statement? (m : Machine) : Option Stmt :=
  match m.control with
  | some (.statement s) => some s
  | _ => none

theorem control_of_statement? {s : Stmt} (next : m.statement? = some s) :
    m.control = some (.statement s) := by
  unfold statement? at next
  split at next <;> cases next
  assumption

/-- The expression that is evaluated next. -/
def expression? (m : Machine) : Option Expr :=
  match m.control with
  | some (.expression e) => some e
  | _ => none

theorem control_of_expression? {e : Expr} (next : m.expression? = some e) :
    m.control = some (.expression e) := by
  unfold expression? at next
  split at next <;> cases next
  assumption

/-- The same at a `return` and its argument, in a program that resumes a stack which it
    captured inside of a call. -/
theorem scopes_follow_syntax_of_callCc :
    let start := Machine.new { maxDepth := 40, prelude := false } Table.standard {}
    let m := start.perform (.eval
      "const f = x => \x7b if (x) \x7b return call_cc(k => k(x)); \x7d \x7d; f(true);" (some 26))
    ∃ births later s e k c, start.Reaches births m ∧ start.Reaches later m.step.2 ∧
      (m.control = some (.statement s) ∧
        (Phrase.statement s).IsPlaced (⟨.builtins, []⟩ :: births) m.env) ∧
      (m.step.2.control = some (.expression e) ∧
        (Phrase.expression e).IsPlaced (⟨.builtins, []⟩ :: later) m.step.2.env) ∧
      (m.stack.frames.length = 2 ∧ ∀ f ∈ m.stack.frames, f.IsPlaced (⟨.builtins, []⟩ :: births)) ∧
      (k ∈ m.world.heap.continuations ∧ k.stack.frames ≠ [] ∧
        ∀ f ∈ k.stack.frames, f.IsPlaced (⟨.builtins, []⟩ :: births)) ∧
      (c ∈ m.world.heap.closures ∧
        (Phrase.function c.function).IsPlaced (⟨.builtins, []⟩ :: births) c.env) := by
  intro start m
  obtain ⟨births, reached⟩ : start.Visits m := Visits.perform ⟨[], .refl⟩ ⟨nofun, nofun⟩
  obtain ⟨isStatement, isExpression, deep, hasCaptured, hasClosure⟩ : m.statement?.isSome ∧
      m.step.2.expression?.isSome ∧ m.stack.frames.length = 2 ∧
      m.world.heap.continuations[0]?.any (fun k => !k.stack.frames.isEmpty) ∧
      m.world.heap.closures[0]?.isSome := by
    decide +kernel
  obtain ⟨s, next⟩ := Option.isSome_iff_exists.1 isStatement
  obtain ⟨e, then_⟩ := Option.isSome_iff_exists.1 isExpression
  obtain ⟨k, found, nonempty⟩ := (Option.any_eq_true _ _).1 hasCaptured
  obtain ⟨c, made⟩ := Option.isSome_iff_exists.1 hasClosure
  obtain ⟨statement, -, stack, captured, closures, -⟩ :=
    scopes_follow_syntax (.blank rfl rfl rfl rfl) reached
  obtain ⟨-, expression, -⟩ := scopes_follow_syntax (.blank rfl rfl rfl rfl) reached.step
  have member := Array.mem_of_getElem? found
  have placed := Array.mem_of_getElem? made
  exact ⟨births, _, s, e, k, c, reached, reached.step,
    ⟨control_of_statement? next, statement s (control_of_statement? next)⟩,
    ⟨control_of_expression? then_, expression e (control_of_expression? then_)⟩,
    ⟨deep, stack⟩, ⟨member, by simpa using nonempty, captured k member⟩,
    ⟨placed, closures c placed⟩⟩

end Machine

end SourceMachine

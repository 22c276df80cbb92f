import SourceMachine.Proofs.Heap.Nearest
import SourceMachine.Proofs.Session.Reaches

/-!
# The shape of stacks

A whole stack ends a program at its bottom and nowhere else; a piece that was cut
out of one neither ends a program nor has the place of a `reset` in it.  The stack
of a machine is whole, and so is every captured one that replaces it; every captured
one that is put on top of it is such a piece.

The invariant speaks of all captured stacks of the heap, since any of them may be
resumed at any later step.  Each step keeps it (`Moves.isShaped`, `Fails.isShaped`),
and with it every session.  So a value always finds a frame to go to, and a program
is complete exactly when its last frame is left.
-/

namespace SourceMachine

variable {fault : Fault} {m m' start : Machine} {h h' : Heap} {env : Env} {c c' : Control}
  {span : Span} {s piece below : Stack} {v left right : Value} {frame f : Frame}
  {progress : Progress} {births : List Birth} {body : List Stmt} {id : Identifier}
  {place : OperandPlace}

namespace Stack

/-- The bottom frame ends the program, and no other one does. -/
def IsWhole (s : Stack) : Prop :=
  ∃ above, s.frames = above ++ [.halt] ∧ .halt ∉ above

/-- No frame ends the program or is the place of a `reset`. -/
def IsPart (s : Stack) : Prop :=
  .halt ∉ s.frames ∧ .delimiter ∉ s.frames

theorem isWhole_initial : Stack.initial.IsWhole :=
  ⟨[], rfl, List.not_mem_nil⟩

theorem IsWhole.push (whole : s.IsWhole) (hf : f ≠ .halt) : (s.push f).IsWhole := by
  obtain ⟨above, frames, notHalt⟩ := whole
  refine ⟨f :: above, by rw [frames_push, frames, List.cons_append], ?_⟩
  rw [List.mem_cons, not_or]
  exact ⟨hf.symm, notHalt⟩

theorem IsWhole.of_push (whole : (s.push f).IsWhole) (hf : f ≠ .halt) : s.IsWhole := by
  obtain ⟨above, frames, notHalt⟩ := whole
  cases above with
  | nil =>
    rw [frames_push, List.nil_append] at frames
    exact absurd (List.cons.inj frames).1 hf
  | cons g above =>
    rw [frames_push, List.cons_append] at frames
    exact ⟨above, (List.cons.inj frames).2, fun h => notHalt (List.mem_cons_of_mem g h)⟩

theorem IsWhole.pushAll (whole : s.IsWhole) (env : Env) (body : List Stmt) :
    (s.pushAll env body).IsWhole := by
  induction body with
  | nil => exact whole
  | cons stmt rest ih => exact ih.push nofun

theorem IsWhole.splice (whole : s.IsWhole) (part : piece.IsPart) : (s.splice piece).IsWhole := by
  obtain ⟨above, frames, notHalt⟩ := whole
  refine ⟨piece.frames ++ above, by rw [frames_splice, frames, List.append_assoc], ?_⟩
  rw [List.mem_append, not_or]
  exact ⟨part.1, notHalt⟩

/-- Frames are put on top in the order in which they were. -/
theorem splice_push (s piece : Stack) (f : Frame) :
    s.splice (piece.push f) = (s.splice piece).push f := by
  apply Stack.ext
  rw [frames_splice, frames_push, frames_push, frames_splice, List.cons_append]

theorem depth_splice (s piece : Stack) : (s.splice piece).depth = piece.depth + s.depth := by
  rw [depth_eq, depth_eq, depth_eq, frames_splice, List.length_append]

/-- Frames that come off one by one are kept in their order. -/
theorem popMany_append {above beneath : List Frame} (frames : s.frames = above ++ beneath)
    (kept : Array Frame) :
    s.popMany kept above.length = (kept ++ above.toArray, ofFrames beneath) := by
  induction above generalizing s kept with
  | nil => simp [popMany, Stack.ext_iff, frames]
  | cons f above ih =>
    obtain rfl : s = (ofFrames (above ++ beneath)).push f := Stack.ext frames
    rw [List.length_cons, popMany, pop?_push]
    simp [ih (frames_ofFrames _)]

/-- Frames without a delimiter have no place to cut. -/
theorem findIdx?_delimiter {frames : List Frame} (absent : .delimiter ∉ frames) :
    frames.findIdx? Frame.isDelimiter = none := by
  rw [List.findIdx?_eq_none_iff]
  intro f member
  cases f with
  | delimiter => exact absurd member absent
  | _ => rfl

/-- The frames above the first delimiter come off and go onto the piece again, in the same
    order, and the delimiter comes off. -/
theorem split?_eq (parts : s.frames = piece.frames ++ .delimiter :: below.frames)
    (absent : .delimiter ∉ piece.frames) : s.split? = some (piece, below) := by
  have position : s.frames.findIdx? Frame.isDelimiter = some piece.frames.length := by
    rw [parts, List.findIdx?_append, findIdx?_delimiter absent]
    simp [List.findIdx?_cons, Frame.isDelimiter]
  rw [split?, position]
  simp only [Option.bind_eq_bind, Option.bind_some, popMany_append parts]
  refine congrArg some (Prod.ext (Stack.ext ?_) (Stack.ext rfl))
  simp

/-- A stack with a delimiter is cut at the nearest one. -/
theorem exists_split? (member : .delimiter ∈ s.frames) : ∃ piece below,
    s.split? = some (piece, below) ∧
      s.frames = piece.frames ++ .delimiter :: below.frames ∧ .delimiter ∉ piece.frames := by
  obtain ⟨above, beneath, parts, absent⟩ := List.eq_append_cons_of_mem member
  exact ⟨ofFrames above, ofFrames beneath, split?_eq parts absent, parts, absent⟩

/-- A stack cannot be cut exactly when it has no delimiter. -/
theorem split?_eq_none_iff : s.split? = none ↔ .delimiter ∉ s.frames := by
  constructor
  · intro uncut member
    obtain ⟨piece, below, cut, -⟩ := exists_split? member
    cases uncut.symm.trans cut
  · intro absent
    rw [split?, findIdx?_delimiter absent]
    rfl

/-- The two parts of a stack that is cut are determined by their frames. -/
theorem split?_eq_some_iff : s.split? = some (piece, below) ↔
    s.frames = piece.frames ++ .delimiter :: below.frames ∧ .delimiter ∉ piece.frames := by
  constructor
  · intro cut
    have member : .delimiter ∈ s.frames := by
      by_contra absent
      cases cut.symm.trans (split?_eq_none_iff.2 absent)
    obtain ⟨piece', below', cut', parts⟩ := exists_split? member
    cases cut.symm.trans cut'
    exact parts
  · rintro ⟨parts, absent⟩
    exact split?_eq parts absent

/-- Cutting a whole stack gives a piece and a whole stack. -/
theorem IsWhole.split (whole : s.IsWhole)
    (cut : s.split? = some (piece, below)) : piece.IsPart ∧ below.IsWhole := by
  obtain ⟨above, frames, notHalt⟩ := whole
  obtain ⟨parts, noDelimiter⟩ := split?_eq_some_iff.1 cut
  -- the bottom frame lies below the delimiter
  rcases List.eq_nil_or_concat below.frames with empty | ⟨inner, bottom, split⟩
  · rw [frames, empty] at parts
    have := (List.append_inj' parts rfl).2
    simp at this
  · rw [frames, split, List.concat_eq_append, ← List.cons_append, ← List.append_assoc] at parts
    obtain ⟨rfl, last⟩ := List.append_inj' parts rfl
    obtain rfl : bottom = .halt := (List.cons.inj last).1.symm
    refine ⟨⟨fun h => notHalt (List.mem_append_left _ h), noDelimiter⟩, inner, ?_, fun h =>
      notHalt (List.mem_append_right _ (List.mem_cons_of_mem _ h))⟩
    rw [split, List.concat_eq_append]

/-! ## A property of all frames -/

section Forall

variable {P : Frame → Prop} {s : Stack} {f : Frame}

theorem frames_pushAll (s : Stack) (env : Env) (body : List Stmt) :
    (s.pushAll env body).frames = body.map (.exec · env) ++ s.frames := by
  induction body with
  | nil => rfl
  | cons stmt rest ih => exact congrArg (.exec stmt env :: ·) ih

theorem forall_push (top : P f) (below : ∀ g ∈ s.frames, P g) : ∀ g ∈ (s.push f).frames, P g := by
  intro g member
  rcases List.mem_cons.1 member with rfl | old
  · exact top
  · exact below g old

theorem forall_of_push (all : ∀ g ∈ (s.push f).frames, P g) : P f ∧ ∀ g ∈ s.frames, P g :=
  ⟨all f List.mem_cons_self, fun g member => all g (List.mem_cons_of_mem f member)⟩

theorem forall_pushAll (statements : ∀ stmt ∈ body, P (.exec stmt env))
    (below : ∀ g ∈ s.frames, P g) : ∀ g ∈ (s.pushAll env body).frames, P g := by
  intro g member
  rw [frames_pushAll] at member
  rcases List.mem_append.1 member with waiting | old
  · obtain ⟨stmt, inside, rfl⟩ := List.mem_map.1 waiting
    exact statements stmt inside
  · exact below g old

theorem forall_splice (above : ∀ g ∈ piece.frames, P g) (below : ∀ g ∈ s.frames, P g) :
    ∀ g ∈ (s.splice piece).frames, P g := by
  intro g member
  rw [frames_splice] at member
  rcases List.mem_append.1 member with new | old
  · exact above g new
  · exact below g old

/-- Cutting a stack adds no frames. -/
theorem forall_of_split (cut : s.split? = some (piece, below)) (all : ∀ g ∈ s.frames, P g) :
    (∀ g ∈ piece.frames, P g) ∧ ∀ g ∈ below.frames, P g := by
  obtain ⟨parts, -⟩ := split?_eq_some_iff.1 cut
  rw [parts] at all
  refine ⟨fun g member => all g (List.mem_append_left _ member), fun g member => ?_⟩
  exact all g (List.mem_append_right _ (List.mem_cons_of_mem _ member))

end Forall

end Stack

/-- The spans that a frame may put the blame on. -/
def Frame.spans : Frame → List Span
  | .unaryOperand _ span _ | .leftOperand _ _ span _ | .rightOperand _ _ span _
  | .callee _ span _ | .argument _ _ _ _ span _ | .apply _ _ span _ | .branch _ _ span _ => [span]
  | .declare id _ _ | .assign id _ => [id.span]
  | .halt | .exec .. | .delimiter => []

/-- A captured stack that replaces the current one is whole, and one that is put on
    top of it is a piece. -/
def Captured.IsShaped (k : Captured) : Prop :=
  match k.kind with
  | .undelimited => k.stack.IsWhole
  | .delimited => k.stack.IsPart

/-- Every captured stack has its shape. -/
def Heap.IsShaped (h : Heap) : Prop :=
  ∀ k ∈ h.continuations, k.IsShaped

namespace Heap

theorem isShaped_of_eq_empty (none : h.continuations = #[]) : h.IsShaped := by
  rw [IsShaped, none]
  exact fun k member => absurd member (Array.not_mem_empty k)

variable (shaped : h.IsShaped)

include shaped

theorem IsShaped.keeps (kept : h.Keeps h') : h'.IsShaped := by
  unfold IsShaped
  rw [kept.continuations]
  exact shaped

theorem IsShaped.newScope (label : String) (outer : Env) : (h.newScope label outer).2.IsShaped :=
  shaped

theorem IsShaped.newContinuation {k : Captured} (captured : k.IsShaped) :
    (h.newContinuation k).2.IsShaped := by
  intro k' member
  rcases Array.mem_push.1 member with old | rfl
  · exact shaped k' old
  · exact captured

theorem IsShaped.enterBody {inner : Heap} {label : String} {outer : Env}
    {result : Except Fault Unit} (scope : h.newScope label outer = (env, inner))
    (hoisted : inner.hoist env body = (result, h')) : h'.IsShaped := by
  cases scope
  exact (shaped.newScope label outer).keeps (Keeps.of_hoist hoisted)

/-- A call keeps the shape of captured stacks, that of its caller among them. -/
theorem IsShaped.enterCall (c : Closure) (args : List Value) {caller : Captured}
    (captured : caller.IsShaped) : (h.enterCall c args caller).2.IsShaped := by
  have params := (shaped.newScope c.function.displayName c.env).keeps
    (Keeps.bindParams _ (⟨h.scopes.size⟩ :: c.env) c.function.params args)
  rw [enterCall_snd]
  exact (params.newContinuation captured).keeps (Keeps.define _ _ _ _ _)

end Heap

namespace Machine

/-- The stack of the machine is whole, and every captured stack has its shape. -/
structure IsShaped (m : Machine) : Prop where
  stack : m.stack.IsWhole
  heap : m.world.heap.IsShaped

theorem isShaped_new (settings : Settings) (table : Table) {world : World}
    (shaped : world.heap.IsShaped) : (Machine.new settings table world).IsShaped := by
  refine ⟨Stack.isWhole_initial, ?_⟩
  exact (shaped.newScope "global" []).keeps (Heap.Keeps.install table _ _)

theorem Starts.frame_ne_halt (start : Starts h env c c' frame) : frame ≠ .halt := by
  cases start <;> exact nofun

theorem Yields.frame_ne_halt {result : Value} (yield : Yields frame v result) : frame ≠ .halt := by
  cases yield <;> exact nofun

theorem Collects.frame_ne_halt {callee : Value} {arguments : List Expr} {next : Nat}
    {evaluated : List Value} (collect : Collects frame v arguments next evaluated callee span env) :
    frame ≠ .halt := by
  cases collect <;> exact nofun

theorem IsShaped.rest (shaped : m.IsShaped) {rest : Stack} (top : m.stack = rest.push frame)
    (notHalt : frame ≠ .halt) : rest.IsWhole := by
  have whole := shaped.stack
  rw [top] at whole
  exact whole.of_push notHalt

/-- A transition that succeeds keeps the shape of stacks. -/
theorem Moves.isShaped (move : m.Moves c c' m') (shaped : m.IsShaped) : m'.IsShaped := by
  cases move with
  | program scope hoisted | block scope hoisted =>
    exact ⟨shaped.stack.pushAll _ _, shaped.heap.enterBody scope hoisted⟩
  | starts start => exact ⟨shaped.stack.push start.frame_ne_halt, shaped.heap⟩
  | functionDeclaration named fresh => exact ⟨shaped.stack.push nofun, shaped.heap⟩
  | expression | literal | identifier => exact shaped
  | function => exact ⟨shaped.stack, shaped.heap⟩
  | exec top | branch top => exact ⟨shaped.rest top nofun, shaped.heap⟩
  | yields top yield => exact ⟨shaped.rest top yield.frame_ne_halt, shaped.heap⟩
  | leftOperand top => exact ⟨(shaped.rest top nofun).push nofun, shaped.heap⟩
  | declare top =>
    exact ⟨shaped.rest top nofun, shaped.heap.keeps (Heap.Keeps.define _ _ _ _ _)⟩
  | assign top assigned =>
    exact ⟨shaped.rest top nofun, shaped.heap.keeps (Heap.Keeps.of_set assigned)⟩
  | nextArgument top collect | lastArgument top collect =>
    exact ⟨(shaped.rest top collect.frame_ne_halt).push nofun, shaped.heap⟩
  | closure top leads counted =>
    have rest := shaped.rest top nofun
    exact ⟨rest, shaped.heap.enterCall _ _ rest⟩
  | callCc top leads counted =>
    have rest := shaped.rest top nofun
    exact ⟨rest.push nofun, shaped.heap.newContinuation rest⟩
  | reset top leads counted =>
    have marked := (shaped.rest top nofun).push (f := .delimiter) nofun
    exact ⟨marked.push nofun, shaped.heap⟩
  | shift top leads counted cut =>
    obtain ⟨part, below⟩ := (shaped.rest top nofun).split cut
    exact ⟨below.push nofun, shaped.heap.newContinuation part⟩
  | native top leads counted found performed =>
    exact ⟨shaped.rest top nofun, shaped.heap.keeps (Heap.Keeps.perform _ _)⟩
  | jump top leads counted kind =>
    have captured := shaped.heap _ (Heap.mem_continuations_of_callee? leads)
    unfold Captured.IsShaped at captured
    rw [kind] at captured
    exact ⟨captured, shaped.heap⟩
  | splice top leads counted kind =>
    have captured := shaped.heap _ (Heap.mem_continuations_of_callee? leads)
    unfold Captured.IsShaped at captured
    rw [kind] at captured
    exact ⟨(shaped.rest top nofun).splice captured, shaped.heap⟩

/-- A transition that fails keeps the shape of captured stacks. -/
theorem Fails.isShaped (fail : m.Fails c fault m') (shaped : m.IsShaped) :
    m'.world.heap.IsShaped := by
  cases fail with
  | program scope clash | block scope clash =>
    exact shaped.heap.enterBody scope clash
  | rejects | exhausted | refuses => exact shaped.heap

/-- A step keeps the shape of stacks. -/
theorem Stepped.isShaped (stepped : m.Stepped progress m') (shaped : m.IsShaped) : m'.IsShaped := by
  have ticked : m.ticked.IsShaped := ⟨shaped.stack, shaped.heap⟩
  cases stepped with
  | complete => exact ⟨shaped.stack, shaped.heap⟩
  | idle => exact shaped
  | proceeded control move fits =>
    have moved := move.isShaped ticked
    exact ⟨moved.stack, moved.heap⟩
  | overflow control move deep => exact ⟨Stack.isWhole_initial, (move.isShaped ticked).heap⟩
  | fault control fail => exact ⟨Stack.isWhole_initial, fail.isShaped ticked⟩

/-- A session keeps the shape of stacks. -/
theorem IsShaped.reaches (shaped : start.IsShaped) (reached : start.Reaches births m) :
    m.IsShaped := by
  induction reached with
  | refl => exact shaped
  | step _ ih => exact (stepped _).isShaped ih
  | load _ _ ih => exact ⟨Stack.isWhole_initial, ih.heap⟩
  | triedPreludes _ ih => exact ⟨ih.stack, ih.heap⟩

/-- What sessions leave behind is shaped. -/
theorem isShaped_of_isLeft {allowed : Heap → Table → Prop} (left : h.IsLeft allowed births) :
    h.IsShaped := by
  induction left with
  | blank _ _ _ continuations => exact Heap.isShaped_of_eq_empty continuations
  | after _ _ reached ih => exact ((isShaped_new _ _ ih).reaches reached).heap

/-! ## What follows for steps -/

/-- Names clash where a statement declares one of them. -/
theorem hoist_error (clash : h.hoist env body = (.error fault, h')) :
    ∃ s ∈ body, ∃ id isMutable, s.declared? = some (id, isMutable) ∧
      fault = ⟨.redeclared id.name isMutable, id.span⟩ := by
  induction body generalizing h with
  | nil => cases clash
  | cons s rest ih =>
    have later {h : Heap} (clash : h.hoist env rest = (.error fault, h')) :
        ∃ s' ∈ s :: rest, ∃ id isMutable, s'.declared? = some (id, isMutable) ∧
          fault = ⟨.redeclared id.name isMutable, id.span⟩ :=
      (ih clash).imp fun s' found => ⟨List.mem_cons_of_mem s found.1, found.2⟩
    unfold Heap.hoist at clash
    split at clash
    · exact later clash
    · next id isMutable declared =>
      split at clash
      · next refused =>
        cases clash
        refine ⟨s, List.mem_cons_self, id, isMutable, declared, ?_⟩
        unfold Heap.declare at refused
        split at refused
        · cases refused
        · split at refused <;> cases refused
          rfl
      · exact later clash

theorem checkUnassigned_error {isMutable : Bool}
    (assigned : h.checkUnassigned env id isMutable = .error fault) :
    fault = ⟨.redeclared id.name isMutable, id.span⟩ := by
  unfold Heap.checkUnassigned at assigned
  split at assigned <;> cases assigned
  rfl

theorem get_error (missing : h.get id env = .error fault) :
    fault = ⟨.undeclared id.name, id.span⟩ ∨ fault = ⟨.unassigned id.name, id.span⟩ := by
  rcases Heap.get_eq_iff.1 missing with ⟨-, failed⟩ | ⟨scope, slot, -, failed⟩
  · cases failed
    exact .inl rfl
  · cases slot <;> cases failed
    exact .inr rfl

theorem assignable_error (refused : h.assignable id env = .error fault) :
    fault = ⟨.undeclared id.name, id.span⟩ ∨ fault = ⟨.constant id.name, id.span⟩ := by
  rcases h.lacks_or_nearest id.name env with lacks | ⟨scope, slot, nearest⟩
  · cases (Heap.assignable_of_lacks lacks).symm.trans refused
    exact .inl rfl
  · rw [Heap.assignable_of_nearest nearest] at refused
    rcases slot with _ | ⟨old, _ | _⟩ <;> cases refused
    · exact .inl rfl
    · exact .inr rfl

theorem map_eq_error {α β : Type} {x : Except Fault α} {f : α → β} (h : x.map f = .error fault) :
    x = .error fault := by
  cases x with
  | error fault' => exact congrArg Except.error (Except.error.inj h)
  | ok a => cases h

/-- The fault blames an operand for its type, at the place of the operator. -/
def IsMismatch (span : Span) (fault : Fault) : Prop :=
  ∃ expected position got, fault = .mismatch expected position got span

theorem asBoolean_error (refused : v.asBoolean place span = .error fault) :
    IsMismatch span fault := by
  cases v <;> cases refused <;> exact ⟨_, _, _, rfl⟩

theorem asNumber_error (refused : v.asNumber place span = .error fault) :
    IsMismatch span fault := by
  cases v <;> cases refused <;> exact ⟨_, _, _, rfl⟩

theorem comparable_error (refused : Comparable.of left right span = .error fault) :
    IsMismatch span fault := by
  unfold Comparable.of at refused
  split at refused <;> cases refused <;> exact ⟨_, _, _, rfl⟩

theorem arithmetic_error {f : Float → Float → Float}
    (refused : arithmetic f left right span = .error fault) : IsMismatch span fault := by
  unfold arithmetic at refused
  split at refused
  · next first =>
    cases refused
    exact asNumber_error first
  · exact asNumber_error (map_eq_error refused)

/-- An operator before one operand objects to the type of the operand, or is not evaluated. -/
theorem unary_error {op : UnaryOp} (applied : op.apply v span = .error fault) :
    op = .typeof ∧ fault = .unsupportedOperator op.text span ∨ IsMismatch span fault := by
  cases op with
  | not => exact .inr (asBoolean_error (map_eq_error applied))
  | minus | plus => exact .inr (asNumber_error (map_eq_error applied))
  | typeof =>
    cases applied
    exact .inl ⟨rfl, rfl⟩

/-- An operator between two operands objects to their types, or is not evaluated. -/
theorem binary_error {op : BinaryOp} (applied : op.apply left right span = .error fault) :
    (op = .looseEq ∨ op = .looseNotEq) ∧ fault = .unsupportedOperator op.text span ∨
      IsMismatch span fault := by
  cases op with
  | add | lt | le | gt | ge => exact .inr (comparable_error (map_eq_error applied))
  | sub | mul | div | rem => exact .inr (arithmetic_error applied)
  | strictEq | strictNotEq => cases applied
  | looseEq | looseNotEq =>
    cases applied
    exact .inl ⟨by simp, rfl⟩

theorem Rejects.cause_ne (reject : Rejects h env c fault) : fault.cause ≠ .stackExhausted := by
  cases reject with
  | declaration assigned | function _ assigned =>
    rw [checkUnassigned_error assigned]
    exact nofun
  | identifier missing => rcases get_error missing with rfl | rfl <;> exact nofun
  | assignment _ refused =>
    unfold Target.assignee at refused
    split at refused <;> cases refused <;> exact nofun
  | _ => exact nofun

/-- A frame that refuses a value puts the blame on its own place and not on the stack.  If it
    knows of no such operator, then it waits for the operand of one that is not evaluated. -/
theorem Refuses.blames {rest : Stack} (refuse : Refuses m rest frame v fault) :
    fault.span ∈ frame.spans ∧ fault.cause ≠ .stackExhausted ∧
      ∀ construct, fault.cause = .unsupported construct →
        (∃ span env, frame = .unaryOperand .typeof span env) ∨ ∃ op left span env,
          frame = .rightOperand op left span env ∧ (op = .looseEq ∨ op = .looseNotEq) := by
  have mem (span : Span) : span ∈ [span] := List.mem_singleton_self span
  cases refuse with
  | unary applied =>
    rcases unary_error applied with ⟨rfl, rfl⟩ | ⟨_, _, _, rfl⟩
    · exact ⟨mem _, nofun, fun _ _ => .inl ⟨_, _, rfl⟩⟩
    · exact ⟨mem _, nofun, nofun⟩
  | binary applied =>
    rcases binary_error applied with ⟨loose, rfl⟩ | ⟨_, _, _, rfl⟩
    · exact ⟨mem _, nofun, fun _ _ => .inr ⟨_, _, _, _, rfl, loose⟩⟩
    · exact ⟨mem _, nofun, nofun⟩
  | assign refused => rcases assignable_error refused with rfl | rfl <;> exact ⟨mem _, nofun, nofun⟩
  | branch undecided =>
    obtain ⟨_, _, _, rfl⟩ := asBoolean_error undecided
    exact ⟨mem _, nofun, nofun⟩
  | arity _ counted =>
    unfold Arity.check at counted
    split at counted <;> cases counted
    exact ⟨mem _, nofun, nofun⟩
  | notCallable | shift | native => exact ⟨mem _, nofun, nofun⟩

/-- Only a value that finds no frame exhausts the stack. -/
theorem Fails.frames_eq_nil (fail : m.Fails c fault m')
    (exhausted : fault.cause = .stackExhausted) : m.stack.frames = [] := by
  cases fail with
  | program _ clash | block _ clash =>
    obtain ⟨_, _, _, _, _, rfl⟩ := hoist_error clash
    cases exhausted
  | rejects reject => exact absurd exhausted reject.cause_ne
  | exhausted v empty => exact empty
  | refuses top refuse => exact absurd exhausted refuse.blames.2.1

theorem Moves.maxDepth (move : m.Moves c c' m') : m'.maxDepth = m.maxDepth := by
  cases move <;> rfl

theorem Fails.maxDepth (fail : m.Fails c fault m') : m'.maxDepth = m.maxDepth := by
  cases fail <;> rfl

theorem Stepped.maxDepth (stepped : m.Stepped progress m') : m'.maxDepth = m.maxDepth := by
  cases stepped with
  | complete | idle => rfl
  | proceeded _ move | overflow _ move => exact move.maxDepth
  | fault _ fail => exact fail.maxDepth

theorem Reaches.maxDepth (reached : start.Reaches births m) : m.maxDepth = start.maxDepth := by
  induction reached with
  | refl => rfl
  | step _ ih => exact (stepped _).maxDepth.trans ih
  | load _ _ ih => exact ih
  | triedPreludes _ ih => exact ih

/-- A step that proceeds stays within the settings. -/
theorem Stepped.depth_le (stepped : m.Stepped progress m') (proceeded : progress = .proceeded) :
    m'.stack.depth ≤ m'.maxDepth := by
  cases stepped with
  | proceeded _ _ fits => exact fits
  | _ => cases proceeded

/-- No step runs out of frames. -/
theorem Stepped.ne_exhausted (stepped : m.Stepped progress m') (whole : m.stack.IsWhole)
    (span : Span) : progress ≠ .failed (.fault ⟨.stackExhausted, span⟩) := by
  rintro rfl
  cases stepped with
  | fault control fail =>
    obtain ⟨above, frames, -⟩ := whole
    have empty : m.stack.frames = [] := fail.frames_eq_nil rfl
    rw [frames] at empty
    exact List.concat_ne_nil _ _ empty

/-- On a whole stack, the frame that ends the program is on top when it is the only
    one. -/
theorem top?_eq_halt_iff (whole : s.IsWhole) : s.top? = some .halt ↔ s.frames = [.halt] := by
  obtain ⟨above, frames, notHalt⟩ := whole
  unfold Stack.top?
  rw [frames]
  cases above with
  | nil => exact ⟨fun _ => rfl, fun _ => rfl⟩
  | cons f above =>
    constructor
    · intro top
      exact absurd (Option.some.inj top) fun same => notHalt (same ▸ List.mem_cons_self)
    · intro single
      exact absurd single (by simp)

/-- A program is complete when its value meets the last frame. -/
theorem complete_iff (whole : m.stack.IsWhole) (v : Value) :
    m.step.1 = .complete v ↔ m.control = some (.value v) ∧ m.stack.frames = [.halt] := by
  rw [← top?_eq_halt_iff whole, ← final?_eq_some]
  constructor
  · intro completed
    have stepped := m.stepped
    rw [completed] at stepped
    generalize m.step.2 = m' at stepped
    cases stepped with
    | complete control top => exact final?_eq_some.2 ⟨control, top⟩
  · intro final
    rw [step_of_final final]

/-- In every state of a session the stack ends the program at its bottom and nowhere
    else, and so does every captured stack that replaces it; a captured stack that is
    put on top of it has neither an end of the program nor the place of a `reset`.  A
    value names a captured stack by its address, so these are all that a program can
    get at.  Hence no step runs out of frames, and a program is complete exactly when
    its value meets the last frame. -/
theorem stack_shape_of_session {settings : Settings} {table : Table} {world : World}
    (noCaptures : world.heap.continuations = #[])
    (visited : (Machine.new settings table world).Visits m) :
    (m.stack.IsWhole ∧ m.stack.depth = m.stack.frames.length) ∧
      (∀ k ∈ m.world.heap.continuations,
        k.stack.depth = k.stack.frames.length ∧
          (k.kind = .undelimited → k.stack.IsWhole) ∧ (k.kind = .delimited → k.stack.IsPart)) ∧
      (m.step.1 = .proceeded → m.step.2.stack.depth ≤ settings.maxDepth) ∧
      (∀ span, m.step.1 ≠ .failed (.fault ⟨.stackExhausted, span⟩)) ∧
      (∀ v, m.step.1 = .complete v ↔
        m.control = some (.value v) ∧ m.stack.frames = [.halt]) ∧
      ∀ request, m.Returns request →
        (Machine.new settings table world).Visits (m.perform request) := by
  obtain ⟨births, reached⟩ := visited
  have shaped :=
    (isShaped_new settings table (Heap.isShaped_of_eq_empty noCaptures)).reaches reached
  refine ⟨⟨shaped.stack, m.stack.depth_eq⟩, fun k member => ⟨k.stack.depth_eq, ?_, ?_⟩, ?_,
    m.stepped.ne_exhausted shaped.stack, complete_iff shaped.stack,
    fun request returns => Visits.perform ⟨births, reached⟩ returns⟩
  · intro kind
    have captured := shaped.heap k member
    rw [Captured.IsShaped, kind] at captured
    exact captured
  · intro kind
    have captured := shaped.heap k member
    rw [Captured.IsShaped, kind] at captured
    exact captured
  · intro proceeded
    have limit : m.step.2.maxDepth = settings.maxDepth := reached.step.maxDepth
    exact (m.stepped.depth_le proceeded).trans_eq limit

/-- The same in the middle of a program that captures its stack and resumes it from
    within a call. -/
theorem stack_shape_of_callCc :
    let start := Machine.new { maxDepth := 40, prelude := false } Table.standard {}
    let m := start.perform (.eval "const r = call_cc(k => 1 + k(2)); r;" (some 11))
    start.Visits m ∧ m.stack.IsWhole ∧
      (m.step.1 = .proceeded → m.step.2.stack.depth ≤ 40) ∧
      ∀ v, m.step.1 = .complete v ↔ m.control = some (.value v) ∧ m.stack.frames = [.halt] := by
  intro start m
  have visited : start.Visits m := Visits.perform ⟨[], .refl⟩ ⟨nofun, nofun⟩
  obtain ⟨⟨whole, -⟩, -, bounded, -, complete, -⟩ := stack_shape_of_session rfl visited
  exact ⟨visited, whole, bounded, complete⟩

end Machine

end SourceMachine

import SourceMachine.Proofs.Session.Failures

/-!
# Where faults are located

A fault names a stretch of text.  It is always one of a phrase of some program that was
taken up, or of a name that such a phrase declares or assigns (`located_of_session`).

A span travels: a frame keeps the span of the phrase that it is from, a captured stack
keeps its frames, a call of a control operator hands its span to the call of its argument,
and a native function does not know any.  So the invariant `IsLocated` speaks of all
phrases and spans that are kept somewhere.  What a transition keeps comes from what was
kept before (`Moves.isLocated`), and a fault takes its span from there (`Fails.locates`).
-/

namespace SourceMachine

variable {fault : Fault} {span : Span} {env : Env} {h h' : Heap} {id : Identifier} {frame f : Frame}
  {rest : Stack} {s : Stmt} {v left right : Value} {isMutable : Bool} {start : Machine}
  {progress : Progress}

/-! ## Phrases and spans of programs -/

/-- The spans of a phrase itself: its own, and those of the names that it declares, assigns
    or is. -/
def Phrase.spans : Phrase → List Span
  | .statement (.declaration _ id _ span) => [span, id.span]
  | .statement (.function f) => f.span :: (f.id.map (·.span)).toList
  | .statement s => [s.span]
  | .expression (.assignment _ (.identifier id) _ span) => [span, id.span]
  | .expression e => [e.span]
  | .function f => f.span :: (f.id.map (·.span)).toList

/-- The phrase stands in one of the programs. -/
def Phrase.IsIn (programs : List Program) (a : Phrase) : Prop :=
  ∃ p ∈ programs, ∃ layers, Occurs p layers a

/-- The span is that of a phrase of one of the programs. -/
def Locates (programs : List Program) (span : Span) : Prop :=
  ∃ a : Phrase, a.IsIn programs ∧ span ∈ a.spans

theorem Expr.span_mem (e : Expr) : e.span ∈ (Phrase.expression e).spans := by
  unfold Phrase.spans
  split <;> simp_all [Expr.span]

theorem Stmt.span_mem (s : Stmt) : s.span ∈ (Phrase.statement s).spans := by
  unfold Phrase.spans
  split <;> simp_all [Stmt.span]

/-- The name that a statement declares is located with the statement. -/
theorem Stmt.declared_span_mem (declared : s.declared? = some (id, isMutable)) :
    id.span ∈ (Phrase.statement s).spans := by
  cases s with
  | declaration kind id' init span =>
    cases declared
    simp [Phrase.spans]
  | function f =>
    obtain ⟨id', named, same⟩ := Option.map_eq_some_iff.1 declared
    cases same
    simp [Phrase.spans, named]
  | _ => cases declared

section

variable {programs : List Program} {a b : Phrase}

theorem Phrase.IsIn.part (inside : a.IsIn programs) (part : Part a b) : b.IsIn programs := by
  obtain ⟨p, member, layers, occurs⟩ := inside
  exact ⟨p, member, layers, occurs.part part⟩

theorem Phrase.IsIn.inBlock {block : Block}
    (inside : (Phrase.statement (.block block)).IsIn programs) (statement : s ∈ block.body) :
    (Phrase.statement s).IsIn programs := by
  obtain ⟨p, member, layers, occurs⟩ := inside
  exact ⟨p, member, _, occurs.inBlock statement⟩

theorem Phrase.IsIn.inFunction {f : Function} (inside : (Phrase.function f).IsIn programs) :
    (Phrase.statement (.block f.body)).IsIn programs := by
  obtain ⟨p, member, layers, occurs⟩ := inside
  exact ⟨p, member, _, occurs.inFunction⟩

theorem Phrase.IsIn.append (inside : a.IsIn programs) (more : List Program) :
    a.IsIn (programs ++ more) := by
  obtain ⟨p, member, occurs⟩ := inside
  exact ⟨p, List.mem_append_left _ member, occurs⟩

theorem Phrase.IsIn.locates (inside : a.IsIn programs) (own : span ∈ a.spans) :
    Locates programs span :=
  ⟨a, inside, own⟩

theorem Locates.append (located : Locates programs span) (more : List Program) :
    Locates (programs ++ more) span := by
  obtain ⟨a, inside, own⟩ := located
  exact ⟨a, inside.append more, own⟩

end

/-! ## What is kept -/

/-- The phrases that are still to be run. -/
def Control.phrases : Control → List Phrase
  | .program p => p.body.map .statement
  | .statement s => [.statement s]
  | .expression e => [.expression e]
  | .value _ => []

/-- The phrases that a frame has still to run. -/
def Frame.phrases : Frame → List Phrase
  | .exec s _ => [.statement s]
  | .leftOperand _ right _ _ => [.expression right]
  | .callee arguments _ _ | .argument arguments _ _ _ _ _ => arguments.map .expression
  | .branch consequent alternate _ _ => consequent.phrases ++ alternate.phrases
  | .halt | .unaryOperand .. | .rightOperand .. | .declare .. | .assign .. | .apply ..
  | .delimiter => []

/-- What is to be run stands in one of the programs. -/
def Control.IsLocated (programs : List Program) (c : Control) : Prop :=
  ∀ a ∈ c.phrases, a.IsIn programs

/-- What a frame keeps is from one of the programs. -/
structure Frame.IsLocated (programs : List Program) (f : Frame) : Prop where
  phrases : ∀ a ∈ f.phrases, a.IsIn programs
  spans : ∀ span ∈ f.spans, Locates programs span

/-- What the closures and the captured stacks keep is from one of the programs. -/
structure Heap.IsLocated (programs : List Program) (h : Heap) : Prop where
  closures : ∀ c ∈ h.closures, (Phrase.function c.function).IsIn programs
  captured : ∀ k ∈ h.continuations, ∀ f ∈ k.stack.frames, f.IsLocated programs

section

variable {programs : List Program}

theorem Frame.IsLocated.append (located : f.IsLocated programs) (more : List Program) :
    f.IsLocated (programs ++ more) :=
  ⟨fun a member => (located.phrases a member).append more,
    fun span member => (located.spans span member).append more⟩

/-- A frame that keeps one span. -/
theorem Frame.IsLocated.of_span (only : f.spans = [span]) (located : Locates programs span)
    (phrases : ∀ a ∈ f.phrases, a.IsIn programs) : f.IsLocated programs := by
  refine ⟨phrases, fun other member => ?_⟩
  rw [only, List.mem_singleton] at member
  rw [member]
  exact located

/-- A frame that keeps one span and nothing else. -/
theorem Frame.IsLocated.of_only (only : f.spans = [span]) (none : f.phrases = [])
    (located : Locates programs span) : f.IsLocated programs :=
  .of_span only located (by simp [none])

theorem Frame.isLocated_halt : Frame.halt.IsLocated programs := by
  refine ⟨?_, ?_⟩ <;> simp [Frame.phrases, Frame.spans]

theorem Frame.isLocated_delimiter : Frame.delimiter.IsLocated programs := by
  refine ⟨?_, ?_⟩ <;> simp [Frame.phrases, Frame.spans]

theorem Frame.isLocated_exec (inside : (Phrase.statement s).IsIn programs) :
    (Frame.exec s env).IsLocated programs := by
  refine ⟨?_, ?_⟩
  · simpa [Frame.phrases] using inside
  · simp [Frame.spans]

theorem Control.isLocated_value (v : Value) : (Control.value v).IsLocated programs := by
  simp [Control.IsLocated, Control.phrases]

theorem Control.isLocated_statement :
    (Control.statement s).IsLocated programs ↔ (Phrase.statement s).IsIn programs := by
  simp [Control.IsLocated, Control.phrases]

theorem Control.isLocated_expression {e : Expr} :
    (Control.expression e).IsLocated programs ↔ (Phrase.expression e).IsIn programs := by
  simp [Control.IsLocated, Control.phrases]

theorem Control.isLocated_program {p : Program} (member : p ∈ programs) :
    (Control.program p).IsLocated programs := by
  intro a inside
  obtain ⟨s, top, rfl⟩ := List.mem_map.1 inside
  exact ⟨p, member, [], .top top⟩

theorem Control.isLocated_ofBody {body : List Stmt}
    (statements : ∀ s ∈ body, (Phrase.statement s).IsIn programs) :
    (Control.ofBody body).IsLocated programs := by
  cases body with
  | nil => exact isLocated_value _
  | cons first rest => exact isLocated_statement.2 (statements first List.mem_cons_self)

end

namespace Heap.IsLocated

variable {programs : List Program} {h h' : Heap}

theorem append (located : h.IsLocated programs) (more : List Program) :
    h.IsLocated (programs ++ more) :=
  ⟨fun c member => (located.closures c member).append more,
    fun k member f above => (located.captured k member f above).append more⟩

theorem keeps (located : h.IsLocated programs) (kept : h.Keeps h') : h'.IsLocated programs := by
  refine ⟨?_, ?_⟩
  · rw [kept.closures]
    exact located.closures
  · rw [kept.continuations]
    exact located.captured

end Heap.IsLocated

namespace Machine

/-- What the stack and the heap keep is from one of the programs. -/
structure Holds (programs : List Program) (m : Machine) : Prop where
  stack : ∀ f ∈ m.stack.frames, f.IsLocated programs
  heap : m.world.heap.IsLocated programs

variable {programs : List Program} {m m' : Machine} {c c' : Control}

theorem Holds.pop (holds : m.Holds programs) (top : m.stack = rest.push frame) :
    frame.IsLocated programs ∧ ∀ f ∈ rest.frames, f.IsLocated programs := by
  have frames := holds.stack
  rw [top] at frames
  exact Stack.forall_of_push frames

/-! ## Transitions -/

/-- The first part of a phrase and the frame that waits for it are from the same program. -/
theorem Starts.isLocated (start : Starts h env c c' frame) (located : c.IsLocated programs) :
    c'.IsLocated programs ∧ frame.IsLocated programs := by
  cases start with
  | call callee arguments span =>
    rw [Control.isLocated_expression] at located
    refine ⟨Control.isLocated_expression.2 (located.part (.callee callee arguments span)),
      .of_span rfl (located.locates (Expr.span_mem _)) fun a member => ?_⟩
    obtain ⟨e, argument, rfl⟩ := List.mem_map.1 member
    exact located.part (.argument callee span argument)
  | unary operand span =>
    rw [Control.isLocated_expression] at located
    exact ⟨Control.isLocated_expression.2 (located.part (.operand _ operand span)),
      .of_only rfl rfl (located.locates (Expr.span_mem _))⟩
  | binary left right span =>
    rw [Control.isLocated_expression] at located
    have second := located.part (.right _ left right span)
    exact ⟨Control.isLocated_expression.2 (located.part (.left _ left right span)),
      .of_span rfl (located.locates (Expr.span_mem _)) (by simpa [Frame.phrases] using second)⟩
  | conjunction left right span =>
    rw [Control.isLocated_expression] at located
    have first := located.part (.first .and left right span)
    have second := located.part (.second .and left right span)
    exact ⟨Control.isLocated_expression.2 first, .of_span rfl (first.locates (Expr.span_mem left))
      (by simpa [Frame.phrases, Control.phrases] using second)⟩
  | disjunction left right span =>
    rw [Control.isLocated_expression] at located
    have first := located.part (.first .or left right span)
    have second := located.part (.second .or left right span)
    exact ⟨Control.isLocated_expression.2 first, .of_span rfl (first.locates (Expr.span_mem left))
      (by simpa [Frame.phrases, Control.phrases] using second)⟩
  | choice test consequent alternate span =>
    rw [Control.isLocated_expression] at located
    have condition := located.part (.condition test consequent alternate span)
    have positive := located.part (.positive test consequent alternate span)
    have negative := located.part (.negative test consequent alternate span)
    exact ⟨Control.isLocated_expression.2 condition,
      .of_span rfl (condition.locates (Expr.span_mem test))
        (by simp [Frame.phrases, Control.phrases, positive, negative])⟩
  | assignment value span hid =>
    rw [Control.isLocated_expression] at located
    obtain ⟨rfl, rfl⟩ := Target.assignee_eq_ok hid
    exact ⟨Control.isLocated_expression.2 (located.part (.assigned _ _ value span)),
      .of_only rfl rfl (located.locates (by simp [Phrase.spans]))⟩
  | declaration init span =>
    rw [Control.isLocated_statement] at located
    exact ⟨Control.isLocated_expression.2 (located.part (.init _ _ init span)),
      .of_only rfl rfl (located.locates (Stmt.declared_span_mem rfl))⟩
  | conditional test consequent alternate span =>
    rw [Control.isLocated_statement] at located
    have condition := located.part (.test test consequent alternate span)
    have positive := located.part (.consequent test consequent alternate span)
    refine ⟨Control.isLocated_expression.2 condition,
      .of_span rfl (condition.locates (Expr.span_mem test)) ?_⟩
    cases alternate with
    | none => simpa [Frame.phrases, Control.phrases] using positive
    | some alternate =>
      have negative := located.part (.alternate test consequent alternate span)
      simp [Frame.phrases, Control.phrases, positive, negative]
  | returns argument span =>
    rw [Control.isLocated_statement] at located
    refine ⟨?_, .of_only rfl rfl (located.locates (Stmt.span_mem _))⟩
    cases argument with
    | none => exact Control.isLocated_value _
    | some argument =>
      exact Control.isLocated_expression.2 (located.part (.returned argument span))

/-- The span of a frame on top is located. -/
theorem Holds.locates (holds : m.Holds programs) (top : m.stack = rest.push frame)
    (kept : span ∈ frame.spans) : Locates programs span :=
  (holds.pop top).1.spans span kept

/-- The frames that a transition adds are from the same programs. -/
theorem Brings.isLocated (brings : m.Brings c f) (holds : m.Holds programs)
    (located : c.IsLocated programs) : f.IsLocated programs := by
  cases brings with
  | ofProgram member => exact Frame.isLocated_exec (located _ (List.mem_map_of_mem member))
  | ofBlock member =>
    exact Frame.isLocated_exec ((Control.isLocated_statement.1 located).inBlock member)
  | started start => exact (start.isLocated located).2
  | declared named =>
    exact .of_only rfl rfl ((Control.isLocated_statement.1 located).locates
      (Stmt.declared_span_mem (Stmt.declared?_function named)))
  | operand top | again top =>
    exact .of_only rfl rfl (holds.locates top (List.mem_singleton_self _))
  | argument top collect =>
    obtain ⟨kept, -⟩ := holds.pop top
    cases collect <;>
      exact .of_span rfl (kept.spans _ (List.mem_singleton_self _)) kept.phrases
  | call top collect =>
    cases collect <;> exact .of_only rfl rfl (holds.locates top (List.mem_singleton_self _))
  | mark => exact Frame.isLocated_delimiter

/-- What a transition goes on with is from the same programs. -/
theorem Moves.control_isLocated (move : m.Moves c c' m') (holds : m.Holds programs)
    (located : c.IsLocated programs) : c'.IsLocated programs := by
  cases move with
  | program =>
    exact Control.isLocated_ofBody fun s member => located _ (List.mem_map_of_mem member)
  | block =>
    exact Control.isLocated_ofBody fun s member =>
      (Control.isLocated_statement.1 located).inBlock member
  | starts start => exact (start.isLocated located).1
  | expression e span =>
    exact Control.isLocated_expression.2
      ((Control.isLocated_statement.1 located).part (.expression e span))
  | exec top | leftOperand top => exact (holds.pop top).1.phrases
  | nextArgument top collect more =>
    obtain ⟨kept, -⟩ := holds.pop top
    have member := List.mem_map_of_mem (f := Phrase.expression) (List.mem_of_getElem? more)
    refine Control.isLocated_expression.2 ?_
    cases collect <;> exact kept.phrases _ member
  | @branch v consequent alternate span env rest b top decided =>
    refine fun a member => (holds.pop top).1.phrases a ?_
    cases b with
    | true => exact List.mem_append_left _ member
    | false => exact List.mem_append_right _ member
  | closure top leads =>
    have function := holds.heap.closures _ (Heap.mem_closures_of_callee? leads)
    exact Control.isLocated_statement.2 function.inFunction
  | _ =>
    exact Control.isLocated_value _

/-- A transition that succeeds keeps only what is from one of the programs. -/
theorem Moves.isLocated (move : m.Moves c c' m') (holds : m.Holds programs)
    (located : c.IsLocated programs) : m'.Holds programs ∧ c'.IsLocated programs := by
  have before : m.AllFrames (Frame.IsLocated programs) := ⟨holds.stack, holds.heap.captured⟩
  have frames := move.allFrames before fun f brings => brings.isLocated holds located
  have next := move.control_isLocated holds located
  refine ⟨⟨frames.stack, fun closure member => ?_, frames.heap⟩, next⟩
  rcases move.mem_closures member with old | ⟨f, rfl, rfl | rfl⟩
  · exact holds.heap.closures closure old
  · exact (Control.isLocated_statement.1 located).part (.declared f)
  · exact (Control.isLocated_expression.1 located).part (.made f)

/-! ## The span of a fault -/

theorem Rejects.locates (reject : Rejects h env c fault) (located : c.IsLocated programs) :
    Locates programs fault.span := by
  cases reject with
  | declaration assigned =>
    rw [checkUnassigned_error assigned]
    exact (Control.isLocated_statement.1 located).locates (Stmt.declared_span_mem rfl)
  | function named assigned =>
    rw [checkUnassigned_error assigned]
    exact (Control.isLocated_statement.1 located).locates
      (Stmt.declared_span_mem (Stmt.declared?_function named))
  | unnamed | returns | statement =>
    exact (Control.isLocated_statement.1 located).locates (Stmt.span_mem _)
  | identifier missing =>
    rcases get_error missing with rfl | rfl <;>
      exact (Control.isLocated_expression.1 located).locates (Expr.span_mem (.identifier _))
  | typeof | loose | nullish | expression =>
    exact (Control.isLocated_expression.1 located).locates (Expr.span_mem _)
  | assignment value refused =>
    have own := (Control.isLocated_expression.1 located).locates (Expr.span_mem _)
    unfold Target.assignee at refused
    split at refused <;> cases refused <;> exact own

/-- A fault of a machine that has a frame on its stack is located. -/
theorem Fails.locates (fail : m.Fails c fault m') (holds : m.Holds programs)
    (located : c.IsLocated programs) (frames : m.stack.frames ≠ []) :
    Locates programs fault.span := by
  cases fail with
  | program scope clash =>
    obtain ⟨s, member, _, _, declared, rfl⟩ := hoist_error clash
    exact (located _ (List.mem_map_of_mem member)).locates (Stmt.declared_span_mem declared)
  | block scope clash =>
    obtain ⟨s, member, _, _, declared, rfl⟩ := hoist_error clash
    exact ((Control.isLocated_statement.1 located).inBlock member).locates
      (Stmt.declared_span_mem declared)
  | rejects reject => exact reject.locates located
  | exhausted v empty => exact absurd empty frames
  | refuses top refuse => exact holds.locates top refuse.blames.1

theorem Fails.isLocated (fail : m.Fails c fault m') (holds : m.Holds programs) :
    m'.world.heap.IsLocated programs := by
  refine ⟨?_, fail.allCaptured ⟨holds.stack, holds.heap.captured⟩⟩
  rw [fail.objects.1]
  exact holds.heap.closures

/-! ## Sessions -/

/-- A session comes from one machine to another and takes up programs on its way. -/
inductive Installs (start : Machine) : List Program → Machine → Prop where
  | refl : Installs start [] start
  | step {programs : List Program} {m : Machine} (reached : Installs start programs m) :
      Installs start programs m.step.2
  | load {programs : List Program} {m : Machine} {text : String} {p : Program}
      (reached : Installs start programs m) (read : Program.read text = .ok p) :
      Installs start (programs ++ [p]) (m.load p)
  | triedPreludes {programs : List Program} {m : Machine} (reached : Installs start programs m) :
      Installs start programs { m with preludePending := false }

theorem Installs.visits (installed : start.Installs programs m) : start.Visits m := by
  induction installed with
  | refl => exact ⟨[], .refl⟩
  | step _ ih => exact ih.step
  | load _ read ih =>
    obtain ⟨births, reached⟩ := ih
    exact ⟨births, reached.load read⟩
  | triedPreludes _ ih =>
    obtain ⟨births, reached⟩ := ih
    exact ⟨births, reached.triedPreludes⟩

/-- Whatever a session does, it takes up some programs. -/
theorem Installs.reaches (installed : start.Installs programs m) {births : List Birth}
    (reached : m.Reaches births m') : ∃ more, start.Installs (programs ++ more) m' := by
  induction reached with
  | refl => exact ⟨[], by rwa [List.append_nil]⟩
  | step _ ih =>
    obtain ⟨more, installed⟩ := ih
    exact ⟨more, installed.step⟩
  | @load _ _ _ p _ read ih =>
    obtain ⟨more, installed⟩ := ih
    exact ⟨more ++ [p], by rw [← List.append_assoc]; exact installed.load read⟩
  | triedPreludes _ ih =>
    obtain ⟨more, installed⟩ := ih
    exact ⟨more, installed.triedPreludes⟩

/-- Everything that the machine keeps is from one of the programs. -/
structure IsLocated (programs : List Program) (m : Machine) : Prop where
  holds : m.Holds programs
  control : ∀ c, m.control = some c → c.IsLocated programs
  faults : ∀ fault ∈ m.faults, Locates programs fault.span

theorem holds_initial (located : h.IsLocated programs) (stack : m.stack = .initial)
    (heap : m.world.heap = h) : m.Holds programs := by
  refine ⟨?_, heap ▸ located⟩
  rw [stack]
  exact forall_initial Frame.isLocated_halt

theorem Stepped.locates (stepped : m.Stepped progress m') (located : m.IsLocated programs)
    (whole : m.stack.IsWhole) (failed : progress = .failed (.fault fault)) :
    Locates programs fault.span := by
  cases stepped with
  | fault control fail =>
    cases failed
    obtain ⟨above, frames, -⟩ := whole
    refine fail.locates ⟨located.holds.stack, located.holds.heap⟩ (located.control _ control) ?_
    show m.stack.frames ≠ []
    rw [frames]
    exact List.concat_ne_nil _ _
  | _ => cases failed

/-- A step keeps only what is from one of the programs. -/
theorem Stepped.isLocated (stepped : m.Stepped progress m') (located : m.IsLocated programs)
    (whole : m.stack.IsWhole) : m'.IsLocated programs := by
  have ticked : m.ticked.Holds programs := ⟨located.holds.stack, located.holds.heap⟩
  have blamed (fault : Fault) : progress = .failed (.fault fault) → Locates programs fault.span :=
    stepped.locates located whole
  cases stepped with
  | complete =>
    exact ⟨⟨located.holds.stack, located.holds.heap⟩, located.control, located.faults⟩
  | idle => exact located
  | @proceeded c c' m₁ control move =>
    obtain ⟨holds, next⟩ := move.isLocated ticked (located.control _ control)
    refine ⟨⟨holds.stack, holds.heap⟩, ?_, ?_⟩
    · rintro c ⟨⟩
      exact next
    · show ∀ fault ∈ m₁.faults, _
      rw [move.faults]
      exact located.faults
  | @overflow c c' m₁ control move =>
    obtain ⟨holds, -⟩ := move.isLocated ticked (located.control _ control)
    refine ⟨holds_initial holds.heap rfl rfl, (fun c idle => by cases idle), ?_⟩
    show ∀ fault ∈ m₁.faults, _
    rw [move.faults]
    exact located.faults
  | @fault c fault m₁ control fail =>
    refine ⟨holds_initial (fail.isLocated ticked) rfl rfl, (fun c idle => by cases idle), ?_⟩
    show ∀ other ∈ m₁.faults.push fault, _
    rw [fail.faults]
    intro other member
    rcases Array.mem_push.1 member with old | rfl
    · exact located.faults other old
    · exact blamed other rfl

theorem IsLocated.append (located : m.IsLocated programs) (more : List Program) :
    m.IsLocated (programs ++ more) := by
  refine ⟨⟨fun f member => (located.holds.stack f member).append more,
    located.holds.heap.append more⟩, fun c control a member => ?_, fun fault member => ?_⟩
  · exact (located.control c control a member).append more
  · exact (located.faults fault member).append more

/-- A session keeps only what is from one of its programs. -/
theorem IsLocated.installs (located : start.IsLocated []) (shaped : start.IsShaped)
    (installed : start.Installs programs m) : m.IsLocated programs := by
  induction installed with
  | refl => exact located
  | step installed ih =>
    obtain ⟨births, reached⟩ := installed.visits
    exact (stepped _).isLocated ih (shaped.reaches reached).stack
  | @load programs m text p installed read ih =>
    have before := ih.append [p]
    refine ⟨holds_initial before.holds.heap rfl rfl, ?_, before.faults⟩
    rintro c ⟨⟩
    exact Control.isLocated_program (List.mem_append_right _ (List.mem_singleton_self p))
  | triedPreludes _ ih => exact ⟨⟨ih.holds.stack, ih.holds.heap⟩, ih.control, ih.faults⟩

theorem isLocated_new (settings : Settings) (table : Table) {world : World}
    (noClosures : world.heap.closures = #[]) (noCaptures : world.heap.continuations = #[]) :
    (Machine.new settings table world).IsLocated [] := by
  have blank : (world.heap.newScope "global" []).2.IsLocated [] := by
    refine ⟨fun c member => ?_, fun k member => ?_⟩
    · change c ∈ world.heap.closures at member
      rw [noClosures] at member
      exact absurd member (Array.not_mem_empty c)
    · change k ∈ world.heap.continuations at member
      rw [noCaptures] at member
      exact absurd member (Array.not_mem_empty k)
  refine ⟨holds_initial (blank.keeps (.install table _ _)) rfl rfl,
    (fun c idle => by cases idle), ?_⟩
  exact fun fault member => absurd member (Array.not_mem_empty fault)

/-- **Faults are located.**  In every state of a session that starts without closures and
    captured stacks, a step that is at fault blames the span of a phrase of a program that
    the session has taken up, or of a name that such a phrase declares or assigns: whatever
    stacks were captured and resumed, and also if a native function complains or a control
    operator calls its argument.  So are all faults on record.  No request leaves these
    states. -/
theorem faults_are_located {settings : Settings} {table : Table} {world : World}
    (noClosures : world.heap.closures = #[])
    (noCaptures : world.heap.continuations = #[])
    (installed : (Machine.new settings table world).Installs programs m) :
    (∀ fault, m.step.1 = .failed (.fault fault) → Locates programs fault.span) ∧
      (∀ fault ∈ m.faults, Locates programs fault.span) ∧
      ∀ request, m.Returns request →
        ∃ more,
          (Machine.new settings table world).Installs (programs ++ more) (m.perform request) := by
  have shaped := isShaped_new settings table (Heap.isShaped_of_eq_empty noCaptures)
  obtain ⟨births, reached⟩ := installed.visits
  have located := (isLocated_new settings table noClosures noCaptures).installs shaped installed
  refine ⟨fun fault => m.stepped.locates located (shaped.reaches reached).stack, located.faults,
    fun request returns => ?_⟩
  obtain ⟨_, onwards⟩ : m.Visits (m.perform request) := Visits.perform ⟨[], .refl⟩ returns
  exact installed.reaches onwards

theorem faults_are_located_of_resumed :
    let start := Machine.new { maxDepth := 40, prelude := false } Table.standard {}
    let m := start.perform (.eval "const f = call_cc(k => k); f(x => head(x));" (some 39))
    let complaint := Complaint.expectedPair "[Function: x => ...]"
    let call : Span := ⟨34, 41, 1, 35⟩
    ∃ programs, start.Installs programs m ∧
      m.step.1 = .failed (.fault ⟨.builtin "head" complaint, call⟩) ∧ Locates programs call := by
  intro start m complaint call
  obtain ⟨births, reached⟩ : start.Visits m := Visits.perform ⟨[], .refl⟩ ⟨nofun, nofun⟩
  obtain ⟨programs, installed⟩ := Installs.refl.reaches reached
  have blamed :
      m.step.1.failure?.elim [] Failure.recorded = [⟨.builtin "head" complaint, call⟩] := by
    decide +kernel
  have failed : m.step.1 = .failed (.fault ⟨.builtin "head" complaint, call⟩) := by
    generalize m.step.1 = progress at blamed
    rcases progress with _ | _ | _ | (_ | fault | _) <;> cases blamed
    rfl
  exact ⟨_, installed, failed, (faults_are_located rfl rfl installed).1 _ failed⟩

end Machine

end SourceMachine

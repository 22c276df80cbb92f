import SourceMachine.Proofs.Session.Lasting

/-!
# Frames that are well formed

A frame that waits for an argument counts what it has: the position of the next argument and
the values so far.  A `return` uses the same kind of frame without any argument to evaluate,
and what it calls is a return point.  The frames of operators never hold an operator that is
read but not evaluated.

Frames are copied when a stack is captured, and resumed later in any order.  So the counts are
an invariant of all captured stacks as well (`Heap.IsFormed`), and not of one call that goes on
without a break.  What a return point leads to is part of it: every call scope binds the hidden
name to the whole stack of its caller, and only the host of a session can have bound it to
something else, by a builtin of that name.
-/

namespace SourceMachine

variable {v callee left right : Value} {span : Span} {fault : Fault} {env : Env} {h : Heap}
  {frame : Frame} {rest : Stack} {evaluated : List Value} {next : Nat}

/-! ## Well-formed frames -/

/-- The value leads to a captured stack that replaces the current one. -/
def Heap.IsWholeCapture (h : Heap) (v : Value) : Prop :=
  ∃ id k, v = .continuation id ∧ h.continuation? id = some k ∧ k.kind = .undelimited

/-- What a `return` may call: the stack of a caller, or what the host has put in its place. -/
def Heap.IsReturnPoint (host : Value → Prop) (h : Heap) (v : Value) : Prop :=
  h.IsWholeCapture v ∨ host v

/-- The frame is one that the rules make: an argument frame has counted its values, and no
    operator is one that is not evaluated. -/
def Frame.IsFormed (host : Value → Prop) (h : Heap) : Frame → Prop
  | .unaryOperand op _ _ => op ≠ .typeof
  | .leftOperand op _ _ _ | .rightOperand op _ _ _ => op ≠ .looseEq ∧ op ≠ .looseNotEq
  | .argument arguments next evaluated called _ _ =>
    (arguments ≠ [] ∧ 1 ≤ next ∧ next ≤ arguments.length ∧ evaluated.length = next - 1) ∨
      (arguments = [] ∧ next = 0 ∧ evaluated = [] ∧ h.IsReturnPoint host called)
  | .halt | .exec .. | .declare .. | .assign .. | .callee .. | .apply .. | .branch ..
  | .delimiter => True

/-- The frames of all captured stacks are well formed, and the hidden name leads to return
    points only. -/
structure Heap.IsFormed (host : Value → Prop) (h : Heap) : Prop where
  captured : ∀ k ∈ h.continuations, ∀ f ∈ k.stack.frames, f.IsFormed host h
  points : ∀ id v isMutable, h.slot? id returnPoint = some (.assigned v isMutable) →
    h.IsReturnPoint host v

section Mono

variable {host : Value → Prop} {h h' : Heap}

theorem Heap.IsReturnPoint.mono (point : h.IsReturnPoint host v) (lasts : h.Lasts h') :
    h'.IsReturnPoint host v := by
  rcases point with ⟨id, k, rfl, found, whole⟩ | hosted
  · exact .inl ⟨id, k, rfl, lasts.continuations found, whole⟩
  · exact .inr hosted

theorem Frame.IsFormed.mono {f : Frame} (formed : f.IsFormed host h) (lasts : h.Lasts h') :
    f.IsFormed host h' := by
  cases f with
  | argument arguments next evaluated callee span env =>
    rcases formed with call | ⟨none, start, empty, point⟩
    · exact .inl call
    · exact .inr ⟨none, start, empty, point.mono lasts⟩
  | unaryOperand | leftOperand | rightOperand => exact formed
  | _ => trivial

theorem Frame.forall_isFormed_mono {frames : List Frame}
    (formed : ∀ f ∈ frames, f.IsFormed host h) (lasts : h.Lasts h') :
    ∀ f ∈ frames, f.IsFormed host h' :=
  fun f member => (formed f member).mono lasts

end Mono

namespace Heap.IsFormed

variable {host : Value → Prop} {h h' : Heap}

/-- Changes that make no captured stack and do not touch the hidden name. -/
theorem keeps (formed : h.IsFormed host) (lasts : h.Lasts h')
    (continuations : h'.continuations = h.continuations)
    (slots : h.KeepsSlots returnPoint h') : h'.IsFormed host := by
  constructor
  · intro k member
    rw [continuations] at member
    exact Frame.forall_isFormed_mono (formed.captured k member) lasts
  · intro id v isMutable bound
    rw [slots id] at bound
    exact (formed.points id v isMutable bound).mono lasts

theorem of_keeps (formed : h.IsFormed host) (kept : h.Keeps h')
    (slots : h.KeepsSlots returnPoint h') : h'.IsFormed host :=
  formed.keeps (.of_keeps kept) kept.continuations slots

theorem newScope (formed : h.IsFormed host) (label : String) (outer : Env) :
    (h.newScope label outer).2.IsFormed host :=
  formed.keeps (.newScope h label outer) rfl (.newScope h label outer)

end Heap.IsFormed

/-! ## Steps -/

namespace Machine

/-- The frames of the machine and of all captured stacks are well formed. -/
structure IsFormed (host : Value → Prop) (m : Machine) : Prop where
  stack : ∀ f ∈ m.stack.frames, f.IsFormed host m.world.heap
  heap : m.world.heap.IsFormed host

section Steps

variable {host : Value → Prop} {births : List Birth} {m m' : Machine} {c c' : Control}
  {progress : Progress}

theorem IsFormed.popped (formed : m.IsFormed host) (top : m.stack = rest.push frame) :
    frame.IsFormed host m.world.heap ∧ ∀ f ∈ rest.frames, f.IsFormed host m.world.heap := by
  have all := formed.stack
  rw [top] at all
  exact Stack.forall_of_push all

/-- A value that is looked for under the hidden name is a return point. -/
theorem isReturnPoint_of_lookup? (formed : h.IsFormed host)
    (found : h.lookup? returnPoint env = some v) : h.IsReturnPoint host v := by
  induction env with
  | nil => cases found
  | cons scope outer ih =>
    rw [Heap.lookup?] at found
    split at found
    · next bound =>
      cases found
      exact formed.points scope v _ bound
    · exact ih found
    · exact ih found

/-- The frame that waits for the first part of a phrase is well formed. -/
theorem Starts.isFormed (start : Starts h env c c' frame) (formed : h.IsFormed host) :
    frame.IsFormed host h := by
  cases start with
  | unary operand span other => exact other
  | binary left right span other => exact not_or.1 other
  | returns argument span point =>
    exact .inr ⟨rfl, rfl, rfl, isReturnPoint_of_lookup? formed point⟩
  | _ => trivial

section

variable {arguments : List Expr}
  (collect : Collects frame v arguments next evaluated callee span env)
  (formed : frame.IsFormed host h)

include collect formed

/-- What a frame has collected is counted: one value for each argument before the next one, or
    the single value of a `return`. -/
theorem Collects.counts : (next ≤ arguments.length ∧ evaluated.length = next) ∨
      (arguments = [] ∧ frame = .argument [] 0 [] callee span env ∧ evaluated = [v] ∧
        h.IsReturnPoint host callee) := by
  cases collect with
  | callee => exact .inl ⟨Nat.zero_le _, rfl⟩
  | argument arguments next evaluated callee span env v =>
    rcases formed with ⟨-, first, last, count⟩ | ⟨rfl, rfl, rfl, point⟩
    · refine .inl ⟨last, ?_⟩
      rw [List.length_cons, count]
      omega
    · exact .inr ⟨rfl, rfl, rfl, point⟩

/-- The frame that waits for the next argument is well formed. -/
theorem Collects.isFormed_next {e : Expr} (more : arguments[next]? = some e) :
    (Frame.argument arguments (next + 1) evaluated callee span env).IsFormed host h := by
  obtain ⟨inside, -⟩ := List.getElem?_eq_some_iff.1 more
  rcases collect.counts formed with ⟨-, count⟩ | ⟨rfl, -⟩
  · refine .inl ⟨?_, Nat.le_add_left 1 next, inside, count⟩
    rintro rfl
    cases inside
  · cases inside

end

/-- The frames that a transition adds are well formed. -/
theorem Brings.isFormed (brings : m.Brings c frame) (formed : m.IsFormed host) :
    frame.IsFormed host m.world.heap := by
  cases brings with
  | started start => exact start.isFormed formed.heap
  | operand top => exact (formed.popped top).1
  | argument top collect more => exact collect.isFormed_next (formed.popped top).1 more
  | _ => trivial

/-- What a step leaves under the hidden name was there, or the step has made a call. -/
theorem Stepped.isReturnPoint (stepped : m.Stepped progress m') (lexical : m.IsLexical births)
    (formed : m.world.heap.IsFormed host) {id : ScopeId} {isMutable : Bool}
    (bound : m'.world.heap.slot? id returnPoint = some (.assigned v isMutable)) :
    m'.world.heap.IsReturnPoint host v := by
  have unnamed := lexical.returnPoint_notMem
  have bears := stepped.bears
  by_cases old : id.index < m.world.heap.scopes.size
  · rw [(stepped.changes.isExtended unnamed).points id old] at bound
    exact (formed.points id v isMutable bound).mono (.of_changes stepped.changes)
  · have inside : id.index < m'.world.heap.scopes.size := by
      by_contra outside
      rw [Heap.slot?_of_size_le (not_lt.1 outside)] at bound
      cases bound
    rw [bears.size_eq] at inside
    cases born : m.birth? with
    | none =>
      rw [born] at inside
      exact absurd inside old
    | some birth =>
      rw [born] at bears inside
      obtain rfl : id = ⟨m.world.heap.scopes.size⟩ :=
        congrArg ScopeId.mk (le_antisymm (Nat.lt_succ_iff.1 inside) (not_lt.1 old))
      have pointed := bears.begets.isPointed (usedNames_of_birth? born ▸ unnamed)
      obtain ⟨site, outer⟩ := birth
      cases site with
      | call f env stack =>
        obtain ⟨k, slot, captured⟩ := pointed
        cases slot.symm.trans bound
        exact .inl ⟨k, _, rfl, captured, rfl⟩
      | builtins | program | block => cases pointed.symm.trans bound

/-- A step keeps frames well formed. -/
theorem Stepped.isFormed (stepped : m.Stepped progress m') (lexical : m.IsLexical births)
    (formed : m.IsFormed host) : m'.IsFormed host := by
  have frames : m'.AllFrames (Frame.IsFormed host m.world.heap) :=
    stepped.allFrames trivial ⟨formed.stack, formed.heap.captured⟩
      fun c f _ brings => brings.isFormed formed
  have after := frames.mono fun f formed => formed.mono (.of_changes stepped.changes)
  exact ⟨after.stack, after.heap, fun _ _ _ => stepped.isReturnPoint lexical formed.heap⟩

/-! ## Sessions -/

/-- A session keeps frames well formed. -/
theorem IsFormed.reaches {start : Machine} {before : List Birth} (lexical : start.IsLexical before)
    (formed : start.IsFormed host) (reached : start.Reaches births m) : m.IsFormed host := by
  induction reached with
  | refl => exact formed
  | step reached ih => exact (stepped _).isFormed (lexical.reaches reached) ih
  | load _ _ ih => exact ⟨forall_initial trivial, ih.heap⟩
  | triedPreludes _ ih => exact ⟨ih.stack, ih.heap⟩

end Steps

end Machine

/-- Whatever a table binds to the hidden name is allowed for the host. -/
def Table.Hosts (host : Value → Prop) (table : Table) : Prop :=
  ∀ v, (returnPoint, v) ∈ table → host v

namespace Machine

section Start

variable {host : Value → Prop} {table : Table} {world : World}

theorem isFormed_install (formed : h.IsFormed host) (hosts : table.Hosts host) :
    (table.install env h).IsFormed host := by
  unfold Table.install
  induction table generalizing h with
  | nil => exact formed
  | cons entry rest ih =>
    refine ih ?_ fun v member => hosts v (List.mem_cons_of_mem _ member)
    obtain ⟨name, value⟩ := entry
    have kept : h.Keeps (h.define env name value false) := .define _ _ _ _ _
    by_cases hidden : name = returnPoint
    · -- the entry of the host
      subst hidden
      refine ⟨fun k member => ?_, fun id v isMutable bound => ?_⟩
      · rw [kept.continuations] at member
        exact Frame.forall_isFormed_mono (formed.captured k member) (.of_keeps kept)
      · have hosted : host value := hosts value List.mem_cons_self
        cases env with
        | nil => exact formed.points id v isMutable bound
        | cons scope outer =>
          by_cases own : scope = id
          · subst own
            by_cases inside : scope.index < h.scopes.size
            · have own : (h.define (scope :: outer) returnPoint value false).slot? scope
                  returnPoint = _ := Heap.slot?_bind_self inside _ _
              rw [own] at bound
              cases bound
              exact .inr hosted
            · rw [Heap.slot?_of_size_le (kept.size.trans_le (not_lt.1 inside))] at bound
              cases bound
          · have other : (h.define (scope :: outer) returnPoint value false).slot? id
                returnPoint = _ := Heap.slot?_bind_of_scope_ne own _ _ _ _
            rw [other] at bound
            exact (formed.points id v isMutable bound).mono (.of_keeps kept)
    · exact formed.of_keeps kept (.define (Ne.symm hidden) _ _ _ _)

theorem isFormed_new (settings : Settings) (formed : world.heap.IsFormed host)
    (hosts : table.Hosts host) : (Machine.new settings table world).IsFormed host :=
  ⟨forall_initial trivial, isFormed_install (formed.newScope "global" []) hosts⟩

/-- What sessions leave behind is well formed. -/
theorem isFormed_of_isLeft {births : List Birth}
    (left : h.IsLeft (fun _ table => table.Hosts host) births) : h.IsFormed host := by
  induction left with
  | @blank h scopes _ _ continuations =>
    constructor
    · rw [continuations]
      exact fun k member => absurd member (Array.not_mem_empty k)
    · intro id v isMutable bound
      rw [Heap.slot?_of_size_le (by rw [scopes]; exact Nat.zero_le _)] at bound
      cases bound
  | @after _ _ settings table _ _ left hosts reached ih =>
    have lexical := isLexical_new settings table (isLexical_of_isLeft left)
    exact ((isFormed_new settings ih hosts).reaches lexical reached).heap

end Start

/-! ## What follows for steps -/

section Follows

variable {host : Value → Prop} {m : Machine}

/-- A step from a value never meets an operator that is not evaluated. -/
theorem IsFormed.step_ne_unsupported (formed : m.IsFormed host)
    (control : m.control = some (.value v)) (construct : String) (span : Span) :
    m.step.1 ≠ .failed (.fault ⟨.unsupported construct, span⟩) := by
  intro failed
  have stepped := m.stepped
  rw [failed] at stepped
  generalize m.step.2 = m' at stepped
  cases stepped with
  | fault control' fail =>
    cases control.symm.trans control'
    cases fail with
    | rejects reject => cases reject
    | refuses top refuse =>
      have read := (formed.popped top).1
      rcases refuse.blames.2.2 construct rfl with ⟨_, _, rfl⟩ | ⟨_, _, _, _, rfl, loose⟩
      · exact read rfl
      · exact not_or.2 read loose

/-- When the last argument has its value, the call gets one value for each argument, and that of
    a `return` gets the single value. -/
theorem step_of_lastArgument (fits : m.Fits) {arguments : List Expr}
    (control : m.control = some (.value v)) (top : m.stack = rest.push frame)
    (collect : Collects frame v arguments next evaluated callee span env)
    (last : arguments[next]? = none) : m.step = (.proceeded, { m.ticked with
      control := some (.value callee), env,
      stack := rest.push (.apply callee evaluated.reverse span env) }) := by
  have notHalt : frame ≠ .halt := by cases collect <;> simp
  have moved : m.ticked.transition (.value v) = (.ok (.value callee),
      { m.ticked with env, stack := rest.push (.apply callee evaluated.reverse span env) }) := by
    rw [transition_of_top (m := m.ticked) top]
    cases collect with
    | callee => simp only [give, nextArgument, last]; rfl
    | argument => simp only [give, nextArgument, last]; rfl
  have small : ¬m.maxDepth < (rest.push (.apply callee evaluated.reverse span env)).depth := by
    have small := fits _ control (by simp)
    rw [top] at small
    exact not_lt.2 small
  rw [step_of_transition control (final?_of_frame control top notHalt), moved]
  exact if_neg small

/-- A call of a whole captured stack with one value is never at fault. -/
theorem step_ne_fault_of_wholeCapture {w k : Value} (control : m.control = some (.value w))
    (top : m.stack = rest.push (.apply k [v] span env)) (whole : m.world.heap.IsWholeCapture k)
    (fault : Fault) : m.step.1 ≠ .failed (.fault fault) := by
  obtain ⟨id, ⟨kind, callerEnv, callerStack⟩, rfl, captured, rfl⟩ := whole
  rw [step_of_transition control (final?_of_frame control top (by simp)),
    transition_of_captured (m := m.ticked) top captured]
  dsimp only [resume]
  unfold settle
  split <;> simp

end Follows

/-- In every state of a session the frames on the stack and in every captured stack are well
    formed.  When a value arrives at the last argument of a call, the call gets exactly one value
    for each argument, and a `return` gets one value.

    What a `return` calls is the whole stack of a caller, or a value that a host has bound to the
    hidden name in a table of builtins.  Unless it is the host's, calling it is never at fault.  No
    value ever meets an operator that is not evaluated. -/
theorem frames_are_formed {settings : Settings} {table : Table} {world : World}
    {before births : List Birth} {m : Machine} {host : Value → Prop}
    (left : world.heap.IsLeft (fun _ table => table.Hosts host) before) (hosts : table.Hosts host)
    (reached : (Machine.new settings table world).Reaches births m) :
    (∀ f ∈ m.stack.frames, f.IsFormed host m.world.heap) ∧
      (∀ k ∈ m.world.heap.continuations, ∀ f ∈ k.stack.frames, f.IsFormed host m.world.heap) ∧
      (∀ v frame (rest : Stack) arguments next evaluated callee span env,
        m.control = some (.value v) →
        m.stack = rest.push frame →
        Collects frame v arguments next evaluated callee span env → arguments[next]? = none →
        m.step.1 = .proceeded ∧
          m.step.2.stack = rest.push (.apply callee evaluated.reverse span env) ∧
          (evaluated.length = arguments.length ∨
            frame = .argument [] 0 [] callee span env ∧ evaluated.length = 1)) ∧
      (∀ v k span env (rest : Stack), m.control = some (.value v) →
        m.stack = rest.push (.argument [] 0 [] k span env) →
        m.step.1 = .proceeded ∧ m.step.2.stack = rest.push (.apply k [v] span env) ∧
          (¬host k → ∀ fault, m.step.2.step.1 ≠ .failed (.fault fault))) ∧
      ∀ v, m.control = some (.value v) → ∀ construct span,
        m.step.1 ≠ .failed (.fault ⟨.unsupported construct, span⟩) := by
  have lexical := isLexical_new settings table (isLexical_of_isLeft left)
  have formed := (isFormed_new settings (isFormed_of_isLeft left) hosts).reaches lexical reached
  have idle : (Machine.new settings table world).Fits := by
    rintro c ⟨⟩
  have fits := idle.reaches reached
  refine ⟨formed.stack, formed.heap.captured, ?_, ?_,
    fun v control => formed.step_ne_unsupported control⟩
  · intro v frame rest arguments next evaluated callee span env control top collect last
    have step := step_of_lastArgument fits control top collect last
    refine ⟨by rw [step], by rw [step], ?_⟩
    rcases collect.counts (formed.popped top).1 with ⟨inside, count⟩ | ⟨-, returns, single, -⟩
    · -- the next argument is none of the call's, so all of them have values
      exact .inl (count.trans (le_antisymm inside (List.getElem?_eq_none_iff.1 last)))
    · exact .inr ⟨returns, by rw [single]; rfl⟩
  · intro v k span env rest control top
    have step := step_of_lastArgument fits control top (.argument [] 0 [] k span env v) rfl
    refine ⟨by rw [step], by rw [step]; rfl, fun own fault => ?_⟩
    rcases (formed.popped top).1 with ⟨some, -⟩ | ⟨-, -, -, point⟩
    · exact absurd rfl some
    · have whole : m.world.heap.IsWholeCapture k := point.resolve_right own
      refine step_ne_fault_of_wholeCapture (m := m.step.2) (by rw [step]) (by rw [step]; rfl) ?_
        fault
      rw [step]
      exact whole

end Machine

/-- Whether a frame waits for the value of a `return`. -/
def Frame.isReturn : Frame → Bool
  | .argument [] 0 [] _ _ _ => true
  | _ => false

theorem Frame.exists_of_isReturn {f : Frame} (returns : f.isReturn = true) :
    ∃ k span env, f = .argument [] 0 [] k span env := by
  unfold isReturn at returns
  split at returns
  · exact ⟨_, _, _, rfl⟩
  · cases returns

/-- Whether a frame waits for the last argument of a call. -/
def Frame.isLast : Frame → Bool
  | .argument (e :: es) next _ _ _ _ => (e :: es)[next]?.isNone
  | _ => false

theorem Frame.exists_of_isLast {f : Frame} (last : f.isLast = true) :
    ∃ arguments next evaluated callee span env,
      f = .argument arguments next evaluated callee span env ∧ arguments ≠ [] ∧
        arguments[next]? = none := by
  unfold isLast at last
  split at last
  · exact ⟨_, _, _, _, _, _, rfl, List.cons_ne_nil _ _, Option.isNone_iff_eq_none.1 last⟩
  · cases last

namespace Machine

theorem hosts_of_unnamed {table : Table} (unnamed : returnPoint ∉ table.names)
    (host : Value → Prop) : table.Hosts host :=
  fun _ member => absurd (List.mem_map_of_mem (f := Prod.fst) member) unnamed

/-- The value that arrives next, the frame where it arrives, and the frames below. -/
def arrival? (m : Machine) : Option (Value × Frame × List Frame) :=
  match m.control, m.stack.frames with
  | some (.value v), f :: fs => some (v, f, fs)
  | _, _ => none

theorem of_arrival? {m : Machine} {v : Value} {f : Frame} {fs : List Frame}
    (arrives : m.arrival? = some (v, f, fs)) :
    m.control = some (.value v) ∧ m.stack = (Stack.ofFrames fs).push f := by
  unfold arrival? at arrives
  split at arrives
  · next control frames =>
    cases arrives
    exact ⟨control, Stack.ext frames⟩
  · cases arrives

/-- The same without a builtin of the hidden name, in a program that captures a stack between two
    arguments: where the value of a `return` arrives, and where the last argument does. -/
theorem frames_are_formed_of_callCc :
    let start := Machine.new { maxDepth := 40, prelude := false } Table.standard {}
    let run := fun budget =>
      start.perform (.eval "const f = (x, y) => x; f(true, call_cc(k => k));" (some budget))
    Table.standard.Hosts (fun _ => False) ∧ start.Visits (run 21) ∧ start.Visits (run 23) ∧
      (∀ f ∈ (run 21).stack.frames, f.IsFormed (fun _ => False) (run 21).world.heap) ∧
      (∃ k ∈ (run 21).world.heap.continuations, k.stack.frames.length = 2 ∧
        ∀ f ∈ k.stack.frames, f.IsFormed (fun _ => False) (run 21).world.heap) ∧
      (∃ v k span env, ∃ rest : Stack, (run 21).control = some (.value v) ∧
        (run 21).stack = rest.push (.argument [] 0 [] k span env) ∧
        (run 21).step.2.stack = rest.push (.apply k [v] span env) ∧
        ∀ fault, (run 21).step.2.step.1 ≠ .failed (.fault fault)) ∧
      ∃ v arguments next evaluated callee span env, ∃ rest : Stack,
        (run 23).control = some (.value v) ∧
        (run 23).stack = rest.push (.argument arguments next evaluated callee span env) ∧
        (run 23).step.2.stack = rest.push (.apply callee (v :: evaluated).reverse span env) ∧
        (v :: evaluated).length = arguments.length ∧
        ∀ construct span, (run 23).step.1 ≠ .failed (.fault ⟨.unsupported construct, span⟩) := by
  intro start run
  have hosts : Table.standard.Hosts fun _ => False := hosts_of_unnamed (by decide) _
  have visits (budget : Nat) : start.Visits (run budget) :=
    Visits.perform ⟨[], .refl⟩ ⟨nofun, nofun⟩
  have formed (budget : Nat) := (visits budget).elim fun _ reached =>
    frames_are_formed (.blank rfl rfl rfl rfl) hosts reached
  obtain ⟨isReturn, isLast, hasCaptured⟩ : (run 21).arrival?.any (·.2.1.isReturn) ∧
      (run 23).arrival?.any (·.2.1.isLast) ∧
      (run 21).world.heap.continuations[0]?.any (·.stack.frames.length = 2) := by
    decide +kernel
  obtain ⟨⟨v, f, fs⟩, arrives, returns⟩ := (Option.any_eq_true _ _).1 isReturn
  obtain ⟨⟨w, g, gs⟩, arrives', last⟩ := (Option.any_eq_true _ _).1 isLast
  obtain ⟨k, found, deep⟩ := (Option.any_eq_true _ _).1 hasCaptured
  obtain ⟨k', span, env, rfl⟩ := Frame.exists_of_isReturn returns
  obtain ⟨arguments, next, evaluated, callee, span', env', rfl, some, none⟩ :=
    Frame.exists_of_isLast last
  obtain ⟨control, top⟩ := of_arrival? arrives
  obtain ⟨control', top'⟩ := of_arrival? arrives'
  obtain ⟨stack, captured, -, returned, -⟩ := formed 21
  obtain ⟨-, -, called, -, supported⟩ := formed 23
  obtain ⟨-, pushed, unfailing⟩ := returned _ _ _ _ _ control top
  obtain ⟨-, pushed', count | ⟨same, -⟩⟩ := called _ _ _ _ _ _ _ _ _ control' top'
    (.argument arguments next evaluated callee span' env' w) none
  · have member := Array.mem_of_getElem? found
    exact ⟨hosts, visits 21, visits 23, stack,
      ⟨k, member, by simpa using deep, captured k member⟩,
      ⟨v, k', span, env, _, control, top, pushed, unfailing id⟩,
      w, arguments, next, evaluated, callee, span', env', _, control', top', pushed', count,
      supported w control'⟩
  · cases same
    exact absurd rfl some

end Machine

/-- The literal that a statement returns. -/
def Stmt.returnedLiteral? : Stmt → Option Literal
  | .returns (some (.literal value _)) _ => some value
  | _ => none

theorem Stmt.eq_returns {s : Stmt} {value : Literal} (returns : s.returnedLiteral? = some value) :
    ∃ at_ span, s = .returns (some (.literal value at_)) span := by
  unfold returnedLiteral? at returns
  split at returns
  · cases returns
    exact ⟨_, _, rfl⟩
  · cases returns

namespace Machine

/-- A host that has a builtin of the hidden name makes it the return point outside of all
    functions: the frame of a `return` there holds `null`, and calling it is at fault. -/
theorem return_calls_builtin :
    let start := Machine.new { maxDepth := 40, prelude := false } [(returnPoint, .null)] {}
    ∃ (m : Machine) (v : Value) (span : Span) (env : Env) (rest : Stack), start.Visits m ∧
      m.control = some (.value v) ∧
      m.stack = rest.push (.argument [] 0 [] .null span env) ∧
      ¬m.world.heap.IsWholeCapture .null ∧
      ∃ text, m.step.2.step.1 = .failed (.fault ⟨.notCallable text, span⟩) := by
  intro start
  obtain ⟨⟨body, whole⟩, read, returns⟩ := Program.exists_read (by decide +kernel :
    ∃ p ∈ (Program.read "return true;").toOption,
      p.body.map Stmt.returnedLiteral? = [some (.boolean true)])
  obtain ⟨s, rfl, literal⟩ := List.map_eq_singleton_iff.1 returns
  obtain ⟨at_, span, rfl⟩ := Stmt.eq_returns literal
  refine ⟨_, .boolean true, span, [⟨1⟩, ⟨0⟩], .initial,
    Visits.run ⟨[], Reaches.refl.load read⟩ 3, rfl, rfl, ?_, _, rfl⟩
  rintro ⟨id, k, ⟨⟩, -⟩

end Machine

end SourceMachine

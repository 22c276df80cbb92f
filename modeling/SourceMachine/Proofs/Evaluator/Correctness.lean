import SourceMachine.Proofs.Evaluator.Rules

/-!
# The machine implements the evaluator

A program starts in a world that sessions have left, and what was proved of all sessions
gives what a simulation needs: the frames of captured stacks are placed, shaped and hold
known values (`IsLexical.isResumable`).  A jump to a whole captured stack ends one
evaluation and begins another, which the machine follows (`landed_simulated`).

`Machine.Matches` turns this into a statement about runs, and `load_matches` has it for a
program on a machine with any room for its stack.  As an evaluation that runs out of fuel
stands for at least as many steps, a run that ends gives an evaluation that ends; so both
directions of `run_agrees_with_evaluate` come out of the one simulation.
-/

namespace SourceMachine

variable {w : World} {m : Machine} {below : Evaluators} {births : List Birth}
  {count fuel jumps : Nat} {env : Env} {fault : Fault} {result : Except Exit Value} {start : Heap}
  {x : Config}

/-! ## The start of a program -/

namespace Heap

section

variable {births : List Birth} {h : Heap} (lexical : h.IsLexical births)

include lexical

theorem IsLexical.has {a : Phrase} (placed : a.IsPlaced births env) : h.Has env := by
  obtain ⟨p, layers, -, -, surrounds⟩ := placed
  intro id member
  rw [← lexical.length_eq]
  exact surrounds.lt_length id member

theorem IsLexical.control_isReady {c : Control} (placed : c.IsPlaced births env)
    (known : c.IsKnown h.continuations.size) : c.IsReady h h env := by
  cases c with
  | program p => exact known
  | statement s => exact ⟨Phrase.IsPlaced.isSpelled placed, (lexical.has placed).isAt⟩
  | expression e => exact ⟨Phrase.IsPlaced.isSpelled placed, lexical.has placed⟩
  | value v => exact known

theorem IsLexical.frame_isReady {f : Frame} (placed : f.IsPlaced births)
    (known : f.IsKnown h.continuations.size) (notHalt : f ≠ .halt) : f.IsReady h h := by
  have arguments {args : List Expr} {env : Env}
      (all : ∀ e ∈ args, Phrase.IsPlaced births env (.expression e)) :
      ∀ e ∈ args, e.IsSpelled ∧ h.Has env :=
    fun e member => ⟨(all e member).isSpelled, lexical.has (all e member)⟩
  cases f with
  | halt => exact absurd rfl notHalt
  | exec s env => exact ⟨Phrase.IsPlaced.isSpelled placed, (lexical.has placed).isAt⟩
  | leftOperand op right span env => exact ⟨Phrase.IsPlaced.isSpelled placed, lexical.has placed⟩
  | declare id isMutable env =>
    obtain ⟨s, declared, placed⟩ := placed
    exact returnPoint_ne (placed.isSpelled.declared declared)
  | assign id env =>
    obtain ⟨value, span, placed⟩ := placed
    obtain ⟨own, -⟩ := placed.isSpelled
    exact returnPoint_ne (own id.name List.mem_cons_self)
  | callee args span env => exact arguments placed
  | argument args next evaluated f span env => exact ⟨arguments placed, known⟩
  | apply f args span env => exact known
  | branch consequent alternate span env =>
    exact ⟨lexical.control_isReady placed.1 known.1, lexical.control_isReady placed.2 known.2⟩
  | unaryOperand | rightOperand | delimiter => trivial

theorem IsLexical.isResumable (closed : h.IsClosed) (shaped : h.IsShaped) : h.IsResumable :=
  ⟨shaped, fun k member f above =>
    lexical.frame_isReady (lexical.captured k member f above) (closed.captured k member f above)⟩

end

end Heap

theorem World.follows_self (lexical : w.heap.IsLexical births) (closed : w.heap.IsClosed) :
    w.Follows w.heap := by
  refine ⟨.refl _, ?_, fun c member => ?_⟩
  · rw [Heap.forget_self]
    exact closed.values
  · have placed := lexical.closures c member
    exact ⟨placed.isSpelled, lexical.has placed⟩

/-! ## Jumps -/

namespace Evaluate

theorem landed_ne_jumped {x : Eval Value} {w' : World} {exit : Exit}
    (ended : landed below jumps x w = some (.error exit, w')) (k : Captured) (v : Value) :
    exit ≠ .jumped k v := by
  induction jumps generalizing x w with
  | zero => cases ended
  | succ jumps ih =>
    rw [landed_succ_apply] at ended
    split at ended
    · exact ih ended
    · next other =>
      rintro rfl
      exact other k v w' ended

/-- The last frame of a whole stack gives the value back. -/
theorem frames_halt (below : Evaluators) (above : List Frame) (v : Value) :
    frames below (above ++ [.halt]) v = frames below above v := by
  induction above generalizing v with
  | nil => rfl
  | cons f above ih =>
    rw [List.cons_append, frames, frames]
    exact bind_congr ih

/-- Where an evaluation jumps, the machine goes on with the captured stack. -/
theorem landed_simulated (resumable : start.IsResumable) (simulated : below.AreSimulated start fuel)
    (enough : jumps ≤ fuel) {e : Eval Value}
    (begins : Simulates start fuel none .initial start x (e w)) :
    Simulates start jumps none .initial start x (landed below jumps e w) := by
  induction jumps generalizing x e w with
  | zero => exact ⟨0, x, .refl x, le_rfl⟩
  | succ jumps ih =>
    rw [landed_succ_apply]
    revert begins
    -- only a jump goes on, and the step that makes it pays for the landing
    rcases e w with _ | ⟨exit | v, w'⟩
    · rintro ⟨count, y, goes, all⟩
      exact ⟨count, y, goes, enough.trans all⟩
    · rintro ⟨count, y, goes, arrives⟩
      cases arrives with
      | fault fails => exact ⟨count, y, goes, .fault fails⟩
      | returned _ _ _ isHome => cases isHome
      | control applies => exact ⟨count, y, goes, .control applies⟩
      | @jumped _ k v w' captured whole known follows steps =>
        obtain ⟨above, frames, ready⟩ := resumable.whole captured follows.grown whole
        have same : k.stack = Stack.initial.splice (.ofFrames above) :=
          Stack.ext (frames.trans (Stack.frames_splice .initial (.ofFrames above)).symm)
        have resumed := frames_simulated simulated follows ready known k.env .initial
        rw [← same, ← frames_halt, ← frames] at resumed
        exact .after goes (.step steps (ih (Nat.le_of_succ_le enough)
          (resumed.since follows.grown)))
    · exact id

end Evaluate

/-! ## Runs -/

/-- What a run comes to when an evaluation ends with a value or with a fault. -/
def Outcome.ofResult? : Except Exit Value → Option Outcome
  | .ok v => some (.finished v)
  | .error (.fault fault) => some (.failed (.fault fault))
  | .error _ => none

namespace Machine

/-- A run does what an evaluation with some fuel does. -/
def Matches (m : Machine) (start : Heap) (fuel : Nat) : Option (Except Exit Value × World) → Prop
  | none => ∃ count x, m.Comes count x ∧ fuel ≤ count
  | some (result, w) =>
    (result = .error .control ∧ ∃ count, (m.run count).2.AppliesControl) ∨
      ∃ outcome budget m', Outcome.ofResult? result = some outcome ∧
        m.run budget = (outcome, m') ∧ m'.world.forget start = w

theorem matches_of_arrives {h : Heap} (comes : m.Comes count x)
    (arrives : Arrives start none .initial h x result w)
    (landed : ∀ k v, result ≠ .error (.jumped k v)) : m.Matches start fuel (some (result, w)) := by
  cases arrives with
  | @value v env w known follows grown =>
    obtain ⟨m', ran⟩ := comes.finished rfl rfl
    exact .inr ⟨_, _, _, rfl, ran, rfl⟩
  | fault fails =>
    obtain ⟨m', ran, world⟩ := comes.failed fails
    exact .inr ⟨_, _, m', rfl, ran, congrArg (World.forget · start) world⟩
  | returned _ _ _ isHome => cases isHome
  | @jumped _ k v w captured whole known follows steps => exact absurd rfl (landed k v)
  | control applies =>
    obtain ⟨m', ran⟩ := comes.run_eq
    refine .inl ⟨rfl, count, ?_⟩
    rw [ran]
    exact applies m'

section

variable {start h : Heap} {fuel : Nat} {x : Config} {ended : Option (Except Exit Value × World)}
  (simulates : Simulates start fuel none .initial h x ended)
  (landed : ∀ k v w, ended ≠ some (.error (.jumped k v), w))

include simulates landed

/-- A simulation has an end from which runs match the evaluation. -/
theorem exists_goes_matches : ∃ more y, Config.Goes more x y ∧
    ∀ (m : Machine) (count : Nat), m.Comes (count + more) y → m.Matches start fuel ended := by
  rcases ended with _ | ⟨result, w⟩
  · obtain ⟨more, y, goes, enough⟩ := simulates
    refine ⟨more, y, goes, fun m count comes => ?_⟩
    exact ⟨_, y, comes, enough.trans (Nat.le_add_left _ _)⟩
  · obtain ⟨more, y, goes, arrives⟩ := simulates
    refine ⟨more, y, goes, fun m count comes => matches_of_arrives comes arrives ?_⟩
    rintro k v rfl
    exact landed k v w rfl

theorem Comes.matches_or_overflows (comes : m.Comes count x) :
    m.Overflows ∨ m.Matches start fuel ended := by
  obtain ⟨more, y, goes, matched⟩ := exists_goes_matches simulates landed
  exact (comes.goes goes).imp id (matched m count)

theorem matches_of_room : ∃ depth, ∀ (m : Machine) (count : Nat), depth ≤ m.maxDepth →
    m.Comes count x → m.Matches start fuel ended := by
  obtain ⟨more, y, goes, matched⟩ := exists_goes_matches simulates landed
  obtain ⟨depth, onwards⟩ := goes.comes
  exact ⟨depth, fun m count room comes => matched m count (onwards m count room comes)⟩

end

/-! ## Programs -/

/-- The scopes of a program. -/
def programEnv (m : Machine) : Env :=
  (m.world.heap.newScope "programEnvironment" m.outer).1

/-- Declare the names of a program in its scope. -/
def declareProgram (m : Machine) (p : Program) : Except Fault Unit × Heap :=
  (m.world.heap.newScope "programEnvironment" m.outer).2.hoist m.programEnv p.body

/-- The configuration in which the names of a program are declared. -/
def programConfig (m : Machine) (p : Program) (h : Heap) : Config :=
  ⟨.ofBody p.body, m.programEnv, Stack.initial.pushAll m.programEnv p.body.tail, m.world.withHeap h⟩

/-- The machine after the first step of a program, but for its configuration. -/
def begun (m : Machine) (p : Program) : Machine :=
  { (m.load p).ticked with outer := m.programEnv, earlier := m.outer :: m.earlier }

section

variable {m : Machine} {p : Program} {h : Heap}

section

variable (declared : m.declareProgram p = (.ok (), h))

include declared

theorem step_load : (m.load p).step =
      ((m.begun p).placed (m.programConfig p h)).settle (m.programConfig p h).control := by
  have hoisted : (m.world.heap.newScope "programEnvironment" m.outer).2.hoist
      (m.world.heap.newScope "programEnvironment" m.outer).1 p.body = (.ok (), h) := declared
  rw [step_of_transition (c := .program p) rfl rfl]
  simp only [transition, enterProgram, schedule, onHeap, ticked, load, hoisted, programConfig]
  cases p.body <;> rfl

theorem comes_load (room : (m.programConfig p h).stack.depth ≤ m.maxDepth) :
    (m.load p).Comes 1 (m.programConfig p h) := by
  have proceeded : (m.load p).step = (.proceeded, (m.begun p).holding (m.programConfig p h)) :=
    (step_load declared).trans (if_neg (not_lt.2 room))
  refine ⟨m.begun p, rfl, fun budget => ?_⟩
  rw [Nat.add_comm 1 budget, run_of_proceeded proceeded]

theorem overflows_load (deep : m.maxDepth < (m.programConfig p h).stack.depth) :
    (m.load p).Overflows := by
  have overflow := (step_load declared).trans (if_pos deep)
  exact ⟨1, _, congrArg Prod.fst (run_of_ended overflow rfl 0)⟩

end

section

variable (clash : m.declareProgram p = (.error fault, h))

include clash

theorem step_load_of_clash : (m.load p).step = (.failed (.fault fault),
      ({ (m.load p).ticked.withHeap h with
        outer := m.programEnv
        earlier := m.outer :: m.earlier }).raise fault) := by
  have hoisted : (m.world.heap.newScope "programEnvironment" m.outer).2.hoist
      (m.world.heap.newScope "programEnvironment" m.outer).1 p.body = (.error fault, h) := clash
  rw [step_of_transition (c := .program p) rfl rfl]
  simp only [transition, enterProgram, schedule, onHeap, ticked, load, hoisted]
  rfl

/-- A program that declares a name twice is given up at once. -/
theorem load_matches_of_clash (spelled : ∀ s ∈ p.body, s.IsSpelled) (fuel : Nat) :
    (m.load p).Matches m.world.heap fuel
      (p.evaluate fuel m.outer (m.world.forget m.world.heap)) := by
  cases fuel with
  | zero =>
    refine ⟨0, ⟨.program p, m.env, .initial, m.world⟩, ⟨m.load p, rfl, fun budget => ?_⟩, le_rfl⟩
    rw [Nat.zero_add]
    rfl
  | succ fuel =>
    have ran := run_of_ended (step_load_of_clash clash) rfl 0
    rw [Program.evaluate, Evaluate.landed_succ_apply,
      Evaluate.body_of_clash spelled "programEnvironment" clash]
    exact .inr ⟨_, 1, _, rfl, ran, rfl⟩

end

end

/-- A run of a program does what the evaluation of the program does, if there is room for
    its stack. -/
theorem load_matches (lexical : m.IsLexical births) (closed : m.world.heap.IsClosed)
    (shaped : m.world.heap.IsShaped) {p : Program} (spelled : ∀ s ∈ p.body, s.IsSpelled)
    (fuel : Nat) : let ended := p.evaluate fuel m.outer m.world
    (∃ depth, ∀ d, depth ≤ d →
      ({ m with maxDepth := d }.load p).Matches m.world.heap fuel ended) ∧
      ∀ d, ({ m with maxDepth := d }.load p).Overflows ∨
        ({ m with maxDepth := d }.load p).Matches m.world.heap fuel ended := by
  intro ended
  have self : m.world.forget m.world.heap = m.world :=
    congrArg (fun heap => { m.world with heap }) m.world.heap.forget_self
  rcases declared : m.declareProgram p with ⟨fault | _, h⟩
  · -- the first step fails, whatever room there is
    have all (d : Nat) : ({ m with maxDepth := d }.load p).Matches m.world.heap fuel ended := by
      have clashes := load_matches_of_clash (m := { m with maxDepth := d }) declared spelled fuel
      rw [self] at clashes
      exact clashes
    exact ⟨⟨0, fun d _ => all d⟩, fun d => .inr (all d)⟩
  · have outer : m.world.heap.Has m.outer := by
      intro id member
      rw [← lexical.heap.length_eq]
      exact lexical.outer.lt_length id member
    have resumable := lexical.heap.isResumable closed shaped
    have simulated := Evaluators.simulated_ofFuel resumable fuel
    have begins := Evaluate.body_simulated simulated (World.follows_self lexical.heap closed)
      outer.isAt spelled "programEnvironment" declared .initial
    have simulates := Evaluate.landed_simulated resumable simulated le_rfl begins
    rw [self] at simulates
    have landed : ∀ k v w, ended ≠ some (.error (.jumped k v), w) :=
      fun k v w jumped => Evaluate.landed_ne_jumped jumped k v rfl
    refine ⟨?_, fun d => ?_⟩
    · obtain ⟨depth, onwards⟩ := matches_of_room simulates landed
      refine ⟨max depth (m.programConfig p h).stack.depth, fun d room => ?_⟩
      have comes := comes_load (m := { m with maxDepth := d }) declared
        ((le_max_right _ _).trans room)
      exact onwards _ 1 ((le_max_left _ _).trans room) comes
    · by_cases deep : d < (m.programConfig p h).stack.depth
      · exact .inl (overflows_load (m := { m with maxDepth := d }) declared deep)
      · have comes := comes_load (m := { m with maxDepth := d }) declared (not_lt.1 deep)
        exact comes.matches_or_overflows simulates landed

theorem ofResult?_ne_suspended {outcome : Outcome} (of : Outcome.ofResult? result = some outcome) :
    outcome ≠ .suspended := by
  rintro rfl
  rcases result with exit | v
  · cases exit <;> cases of
  · cases of

/-- The machine implements the evaluator, for every program and after every session.

    If an evaluation of the program ends with a value or a fault, then a run without a
    budget comes to the same on every machine with enough room for its stack, and leaves
    the same world behind, with the console in it, but for the return points that were
    made on the way.  If it ends because a control operator is applied, then the run
    applies one.  Conversely, if a run ends for another reason than the room for its
    stack and no step of it applies a control operator, then with some fuel the
    evaluation of the program comes to the same. -/
theorem run_agrees_with_evaluate {settings : Settings} {table : Table} {world : World}
    {before : List Birth} {p : Program}
    (left : world.heap.IsLeft (fun h table => table.IsFrom h) before)
    (values : table.IsFrom world.heap)
    (reached : (Machine.new settings table world).Reaches births m) (read : p.IsRead) :
    let loaded (d : Nat) : Machine := { m with maxDepth := d }.load p
    (∀ fuel result w, p.evaluate fuel m.outer m.world = some (result, w) →
      (result = .error .control ∧
        ∃ depth, ∀ d, depth ≤ d → ∃ count, ((loaded d).run count).2.AppliesControl) ∨
      ∃ outcome, Outcome.ofResult? result = some outcome ∧ ∃ depth, ∀ d, depth ≤ d →
        (loaded d).Ends ∧ ∃ m', (loaded d).runWithin none = (outcome, m') ∧
          m'.world.forget m.world.heap = w) ∧
      ∀ d outcome m', (loaded d).Ends → (loaded d).runWithin none = (outcome, m') →
        (∀ depth, outcome ≠ .failed (.overflow depth)) →
        (∀ count, ¬((loaded d).run count).2.AppliesControl) →
        ∃ fuel result w, p.evaluate fuel m.outer m.world = some (result, w) ∧
          Outcome.ofResult? result = some outcome ∧ m'.world.forget m.world.heap = w := by
  intro loaded
  have lexical := (isLexical_new settings table (isLexical_of_isLeft left)).reaches reached
  have closed := (isClosed_new settings (Heap.isClosed_of_isLeft left) values).reaches reached
  have shaped := (isShaped_new settings table (isShaped_of_isLeft left)).reaches reached
  have agrees := load_matches lexical closed.heap shaped.heap fun s member => read.isSpelled member
  refine ⟨fun fuel result w ended => ?_, fun d outcome m' ends ran fits uncontrolled => ?_⟩
  · obtain ⟨⟨depth, matched⟩, -⟩ := agrees fuel
    rw [ended] at matched
    -- which of the two it is depends on the result alone, not on the room
    rcases matched depth le_rfl with ⟨rfl, -⟩ | ⟨outcome, -, -, of, -, -⟩
    · refine .inl ⟨rfl, depth, fun d room => ?_⟩
      rcases matched d room with ⟨-, applies⟩ | ⟨_, _, _, of, -, -⟩
      · exact applies
      · cases of
    · refine .inr ⟨outcome, of, depth, fun d room => ?_⟩
      rcases matched d room with ⟨rfl, -⟩ | ⟨outcome', budget, m', of', ran, same⟩
      · cases of
      · obtain rfl : outcome' = outcome := Option.some.inj (of'.symm.trans of)
        obtain ⟨ends, ran⟩ := runToEnd_of_run ran (ofResult?_ne_suspended of)
        exact ⟨ends, m', ran, same⟩
  · obtain ⟨budget, stopped⟩ := ends
    -- more fuel than the run has steps cannot be used up
    rcases (agrees (budget + 1)).2 d with ⟨_, depth, overflow⟩ | matched
    · have ended := runToEnd_of_run (Prod.ext overflow rfl) nofun
      have same := (congrArg Prod.fst ended.2).symm.trans (congrArg Prod.fst ran)
      exact absurd same.symm (fits depth)
    · rcases ended : p.evaluate (budget + 1) m.outer m.world with _ | ⟨result, w⟩
      · rw [ended] at matched
        obtain ⟨count, x, comes, enough⟩ := matched
        obtain ⟨m'', suspended⟩ := comes.run_eq
        have same := run_of_le stopped (Nat.le_of_succ_le enough)
        rw [suspended] at same
        exact absurd (congrArg Prod.fst same).symm stopped
      · rw [ended] at matched
        rcases matched with ⟨-, count, applies⟩ | ⟨outcome', budget', m'', of, ran', same⟩
        · exact absurd applies (uncontrolled count)
        · obtain ⟨-, ran'⟩ := runToEnd_of_run ran' (ofResult?_ne_suspended of)
          obtain ⟨rfl, rfl⟩ := Prod.mk.inj (ran'.symm.trans ran)
          exact ⟨budget + 1, result, w, ended, of, same⟩

/-- A function that gives its argument back with a `return`. -/
theorem run_agrees_with_evaluate_of_call :
    let m := Machine.new { prelude := false } Table.standard {}
    ∃ p, Program.read "const f = x => \x7b return x; \x7d; f(true);" = .ok p ∧
      (∃ w, p.evaluate 20 m.outer m.world = some (.ok (.boolean true), w)) ∧
      ∃ depth, ∀ d, depth ≤ d → ∃ m',
        ({ m with maxDepth := d }.load p).runWithin none = (.finished (.boolean true), m') := by
  intro m
  obtain ⟨p, read, checked⟩ := Program.exists_read (by decide +kernel :
    ∃ p ∈ (Program.read "const f = x => \x7b return x; \x7d; f(true);").toOption,
      (p.evaluate 20 m.outer m.world).bind (·.1.toOption) = some (.boolean true))
  obtain ⟨⟨result, w⟩, ended, value⟩ := Option.bind_eq_some_iff.1 checked
  cases result with
  | error => cases value
  | ok v =>
    cases value
    refine ⟨p, read, ⟨w, ended⟩, ?_⟩
    have here : m.Reaches [] m := .refl
    have agrees := run_agrees_with_evaluate (.blank rfl rfl rfl rfl) (Table.isFrom_standard {})
      here ⟨_, read⟩
    rcases agrees.1 20 _ w ended with ⟨control, -⟩ | ⟨outcome, of, depth, runs⟩
    · cases control
    · cases of
      refine ⟨depth, fun d room => ?_⟩
      obtain ⟨-, m', ran, -⟩ := runs d room
      exact ⟨m', ran⟩

end Machine

end SourceMachine

import SourceMachine.Proofs.Program.Routines

/-!
# Reading ends

The routines of the grammar call each other through `Calls.ofFuel`, where every call goes one
level down and costs fuel.  With enough fuel, reading a text this way gives what `Program.read`
gives, and leaves a trace in which the counter is never too high and always comes back, every
call and every round takes a token, and every failed attempt goes back to its parenthesis.
-/

namespace SourceMachine

open Reader

namespace Descent

/-- The calls of the machine: one level down, with less fuel. -/
def Calls.ofFuel : (fuel : Nat) → Calls
  | 0 => ⟨0, fun _ => none, fun _ => none, fun _ => none⟩
  | fuel + 1 =>
    let down {α : Type} (label : Label) (x : Routine α) : Machine α :=
      ((x.run (Calls.ofFuel fuel)).nested.advancing label).called label
    ⟨fuel + 1, down .statement .statementBody, down .expression .expressionBody,
      down .operand .operandBody⟩

/-- Read a text from the start, with the counter at zero. -/
def parse (fuel : Nat) (text : String) (d : Dictionary) :
    Option (Except Refusal Program × State) :=
  Routine.program.run (Calls.ofFuel fuel) ⟨Feed.ofText text d, 0, []⟩

variable {α : Type} {text : String} {c : Nat} {level : Level}

theorem Calls.fuel_ofFuel (fuel : Nat) : (Calls.ofFuel fuel).fuel = fuel := by
  cases fuel <;> rfl

/-- A call follows the reader of its body, if the body is allowed. -/
theorem Context.follows_call (below : Context text (c + 1) level Calls.ofFuel)
    (bounded : c < maxNesting) (label : Label) (x : Routine α) {r : Reader α} {node : α → Node}
    (same : x.read level = r) (places : Reader.Places (tokensOf text) r fun a => [node a])
    (s : Stream) : Follows text c s
      (fun n => ((x.run (Calls.ofFuel n)).nested.advancing label).called label) r := by
  have body : Follows text (c + 1) s (fun n => x.run (Calls.ofFuel n)) r :=
    same ▸ x.follows below s
  refine .called label bounded.le (.advancing label (.nested bounded body) fun tiled => ?_)
  exact (places tiled).mono fun a s' row => row.passes tiled

/-- At every value of the counter, the calls follow the readers for the nesting that is left. -/
theorem context_ofDepth (text : String) (depth : Nat) (room : c + depth = maxNesting) :
    Context text c (Level.ofDepth depth) Calls.ofFuel := by
  induction depth generalizing c with
  | zero =>
    obtain rfl : c = maxNesting := room
    have refused {α : Type} (label : Label) (x : Routine α) (s : Stream) :
        Follows text maxNesting s
          (fun n => ((x.run (Calls.ofFuel n)).nested.advancing label).called label)
          (refuse .tooDeep) :=
      .called label le_rfl (.advancing label .nested_of_max fun _ => .refuse _)
    exact ⟨Calls.fuel_ofFuel, le_rfl, Level.places_ofDepth _ 0, fun s => .of_succ (refused _ _ s),
      fun s => .of_succ (refused _ _ s), fun s => .of_succ (refused _ _ s)⟩
  | succ depth ih =>
    have below : Context text (c + 1) (Level.ofDepth depth) Calls.ofFuel := ih (by omega)
    have bounded : c < maxNesting := by omega
    have places := Level.places_ofDepth (tokensOf text) (depth + 1)
    refine ⟨Calls.fuel_ofFuel, bounded.le, places, fun s => .of_succ ?_, fun s => .of_succ ?_,
      fun s => .of_succ ?_⟩
    · exact below.follows_call bounded _ _ Routine.read_statementBody places.statement s
    · exact below.follows_call bounded _ _ Routine.read_expressionBody places.expression s
    · exact below.follows_call bounded _ _ Routine.read_operandBody places.operand s

/-- The machine at the start of a text shows its stream. -/
theorem shows_ofText (text : String) (d : Dictionary) :
    Shows text 0 (Stream.ofText text) ⟨Feed.ofText text d, 0, []⟩ :=
  ⟨⟨⟨0, Feed.isIn_ofText text d⟩, rfl, by simp⟩, Feed.stream_ofText text d,
    Stream.isTiled_ofText text⟩

/-- With enough fuel the machine ends as reading does, with the counter at zero. -/
theorem exists_parse (text : String) (d : Dictionary) : ∃ bound, ∀ fuel ≥ bound, ∃ feed trace,
      parse fuel text d = some (Program.read text, ⟨feed, 0, trace⟩) ∧
      ∀ event ∈ trace, event.IsSound := by
  have context := context_ofDepth text maxNesting (Nat.zero_add _)
  obtain ⟨bound, runs⟩ := Routine.program.follows context (Stream.ofText text)
  refine ⟨bound, fun fuel enough => ?_⟩
  have ended := runs fuel enough _ (shows_ofText text d)
  rw [Routine.read_program] at ended
  have outcome : ∃ st, parse fuel text d = some (Program.read text, st) ∧ IsReading text 0 st := by
    rw [Program.read_eq]
    cases read : Program.reader (Stream.ofText text) with
    | error refusal =>
      rw [read] at ended
      exact ended.exists_of_error
    | ok result =>
      rw [read] at ended
      obtain ⟨st, ran, shows⟩ := ended.exists_of_ok
      exact ⟨st, ran, shows.toIsReading⟩
  obtain ⟨⟨feed, depth, trace⟩, ran, reading⟩ := outcome
  obtain rfl : depth = 0 := reading.depth
  exact ⟨feed, trace, ran, reading.sound⟩

end Descent

/-- What is accepted at the stream starts with a token that is taken. -/
structure Grammar.Advances (level : Level) (s : Stream) : Prop where
  statement : Yields level.statement s fun _ s' => s.Passes s'
  expression : Yields level.expression s fun _ s' => s.Passes s'
  operand : Yields level.operand s fun _ s' => s.Passes s'
  binary : ∀ least, Yields (binary level least) s fun _ s' => s.Passes s'
  primary : Yields (primary level) s fun _ s' => s.Passes s'

/-- The rounds of all loops take tokens at the stream. -/
structure Grammar.Turns (level : Level) (s : Stream) : Prop where
  statements : ∀ isEnd body, TakesToken (statementsRound level isEnd body) s
  params : ∀ params, TakesToken (paramsRound params) s
  expressions : ∀ close items, TakesToken (commaRound close level.expression items) s
  properties : ∀ close items, TakesToken (commaRound close (property level) items) s
  suffixes : ∀ start expr, TakesToken (suffixRound level start expr) s
  operators : ∀ least start left, TakesToken (joinRound level least start left) s
  skipParens : ∀ depth, TakesToken (parensRound depth) s
  skippedStatement : ∀ depth, TakesToken (skippedRound depth) s

namespace Grammar

variable {T : List Token} {level : Level} {s : Stream}

/-- What is read is a node, and no node is empty. -/
theorem advances_of_places (places : level.Places T) (tiled : s.IsTiled T) : Advances level s := by
  have takes {α : Type} {r : Reader α} {node : α → Node}
      (placed : Reader.Places T r fun a => [node a]) : Yields r s fun _ s' => s.Passes s' :=
    (placed tiled).mono fun a s' row => row.passes tiled
  exact ⟨takes places.statement, takes places.expression, takes places.operand,
    fun least => takes (binary_places places least), takes (primary_places places)⟩

theorem turns_of_places (places : level.Places T) (tiled : s.IsTiled T) : Turns level s where
  statements := fun isEnd body => takesToken_of_adds (statementsRound_adds places isEnd tiled body)
  params := fun params => takesToken_of_adds (paramsRound_adds tiled params)
  expressions := fun _ items => takesToken_of_adds (commaRound_adds places.expression tiled items)
  properties := fun _ items =>
    takesToken_of_adds (commaRound_adds (property_places places) tiled items)
  suffixes := fun start expr => takesToken_suffixRound places start expr tiled
  operators := fun least start left => takesToken_joinRound places least start left tiled
  skipParens := fun depth => takesToken_parensRound depth
  skippedStatement := fun depth => takesToken_skippedRound depth

end Grammar

/-- **Reading ends.**  For every text there is enough fuel for the machine, and with any more
    it gives the program or the refusal that `Program.read` gives, with the counter back at
    zero.  All that it notes on the way is sound (`Event.IsSound`): the counter is never above
    `maxNesting`, and it is back where it was after every call, successful or not; every
    successful call of a statement, an expression, operands with operators, an operand or a
    primary expression, and every round after which a loop goes on, leads to a later token;
    and every attempt at an arrow function that failed goes back to its parenthesis.

    The readers themselves do so at every stream that the text leads to, for any nesting that
    is left: what they accept starts with a token that is taken, and no round goes on without
    taking one. -/
theorem parsing_ends (text : String) (d : Dictionary) :
    (∃ bound, ∀ fuel ≥ bound, ∃ feed trace,
      Descent.parse fuel text d = some (Program.read text, ⟨feed, 0, trace⟩) ∧
      ∀ event ∈ trace, event.IsSound) ∧
    ∀ depth s, (Stream.ofText text).Leads s →
      Grammar.Advances (Level.ofDepth depth) s ∧ Grammar.Turns (Level.ofDepth depth) s := by
  refine ⟨Descent.exists_parse text d, fun depth s reached => ?_⟩
  have tiled := (Stream.isTiled_ofText text).leads reached
  have places := Level.places_ofDepth (tokensOf text) depth
  exact ⟨Grammar.advances_of_places places tiled, Grammar.turns_of_places places tiled⟩

/-- With a fuel of 6, reading `(a)` ends and has noted 36 events: five levels, a failed attempt
    at an arrow function, and the calls and the tokens of all this. -/
theorem parsing_ends_of_paren :
    (Descent.parse 6 "(a)" {}).map (fun run => (run.2.depth, run.2.trace.length)) = some (0, 36) ∧
    (∃ bound, ∀ fuel ≥ bound, ∃ feed trace,
      Descent.parse fuel "(a)" {} = some (Program.read "(a)", ⟨feed, 0, trace⟩) ∧
      ∀ event ∈ trace, event.IsSound) ∧
    Grammar.Advances (Level.ofDepth 1) (Stream.ofText "(a)").advance := by
  have more : (Stream.ofText "(a)").current.kind ≠ .eof := by decide +kernel
  obtain ⟨ends, reads⟩ := parsing_ends "(a)" {}
  exact ⟨by decide +kernel, ends, (reads 1 _ (Stream.leads_advance more)).1⟩

end SourceMachine

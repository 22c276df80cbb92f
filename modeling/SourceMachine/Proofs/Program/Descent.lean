import SourceMachine.Proofs.Program.Placed

/-!
# Reading with a counter

`Program.read` is a function of the nesting that is still allowed, and a loop of it refuses
where it would turn forever.  Here is a machine that reads with neither: its state is a feed
and a counter of the nesting, it goes down as deep as the grammar calls itself, and it turns as
long as its loops go on.  So a run may end with a result, end with a refusal, in which case the
state stays as it is then, or not end within the fuel it was given.

The machine keeps a trace of what it does: the values of the counter, the calls with the
counter before and after, the tokens before and after what has to take one, and the places
to which it went back.

A routine is a piece of reading in both forms, as a reader and as a run of the machine, together
with the proof that the run follows the reader (`Routine`, `Follows`).  Routines are put
together like readers, so this is proved once for each way to put them together.
-/

namespace SourceMachine

namespace Descent

open Reader

/-! ## The machine -/

/-- What the machine calls, and the loops it runs. -/
inductive Label where
  | program | statements | statement | block | declaration | functionDeclaration | functionRest
  | params | conditionalStatement | returnStatement | whileStatement | doWhileStatement
  | forStatement | throwStatement | tryStatement | skippedStatement | skipParens
  | expressionStatement | expression | conditional | binary | operand | postfixExpression
  | callExpression | suffixes | arguments | primary | parenthesised | arrowRest | array | object

/-- What is noted of a run. -/
inductive Event where
  /-- The counter was raised to this number. -/
  | level (depth : Nat)
  /-- A call came back: the counter at its start and at its end. -/
  | call (label : Label) (before after : Nat)
  /-- A call succeeded, or a loop goes on: the current token before and after. -/
  | progress (label : Label) (before after : Token)
  /-- An attempt failed: where it started, and from where reading goes on. -/
  | retry (before after : Stream)

/-- The counter is never too high and comes back to where it was, what takes a token leads to
    a later one, and what is tried again starts at the same parenthesis. -/
def Event.IsSound : Event → Prop
  | .level depth => depth ≤ maxNesting
  | .call _ before after => before ≤ maxNesting ∧ after = before
  | .progress _ before after => before.span.start < after.span.start
  | .retry before after => before.current.kind = .mark .lParen ∧ after = before

/-- A cursor with its current token, the counter, and the trace, latest first. -/
structure State where
  feed : Feed
  depth : Nat
  trace : List Event

/-- A run ends with a result or a refusal, and with a state in either case; or there is not
    enough fuel. -/
abbrev Machine := ExceptT Refusal (StateT State Option)

namespace Machine

variable {α β σ : Type} {k : α → Machine β}

/-- Look at the current token, and at the place where the one before it ended. -/
def look (view : Token → Nat → α) : Machine α := fun st =>
  some (.ok (view st.feed.current st.feed.previousStop), st)

/-- Refuse at the current token. -/
def fail (refusal : Token → Refusal) : Machine α := fun st =>
  some (.error (refusal st.feed.current), st)

/-- Take the current token.  The end of the text stays current. -/
def take : Machine Unit := fun st =>
  some (.ok (), { st with feed :=
    if st.feed.current.kind = .eof then { st.feed with previousStop := st.feed.current.span.stop }
    else st.feed.advance })

/-- Look at the next two tokens. -/
def lookAhead : Machine Bool := fun st =>
  some (.ok st.feed.isIterationHead.1, { st with feed := st.feed.isIterationHead.2 })

def note (event : Event) : Machine Unit := fun st =>
  some (.ok (), { st with trace := event :: st.trace })

/-- Note that a call came back. -/
def called (label : Label) (m : Machine α) : Machine α := fun st => do
  let (result, st') ← m st
  return (result, { st' with trace := .call label st.depth st'.depth :: st'.trace })

/-- Note the tokens before and after a success. -/
def advancing (label : Label) (m : Machine α) : Machine α := do
  let before ← look fun t _ => t
  let a ← m
  let after ← look fun t _ => t
  note (.progress label before after)
  return a

/-- Repeat a round until it is done. -/
def loop (label : Label) (round : σ → Machine (Round σ β)) : (fuel : Nat) → σ → Machine β
  | 0, _ => fun _ => none
  | fuel + 1, state => do
    let before ← look fun t _ => t
    match ← round state with
    | .done result => return result
    | .more state' =>
      let after ← look fun t _ => t
      note (.progress label before after)
      loop label round fuel state'

/-- At an opening parenthesis, try something, and go back if it fails. -/
def attempt (m : Machine α) : Machine (Option α) := fun st =>
  if st.feed.current.kind = .mark .lParen then do
    match ← m st with
    | (.ok a, st') => return (.ok (some a), st')
    | (.error _, st') =>
      let feed := st'.feed.rewind st.feed
      return (.ok none,
        { st' with feed, trace := .retry st.feed.stream feed.stream :: st'.trace })
  else
    return (.ok none, st)

/-- One level down, if the counter allows it.  The counter is lowered again whether or not
    this succeeds. -/
def nested (m : Machine α) : Machine α := fun st =>
  if maxNesting ≤ st.depth then
    fail (fun t => ⟨.tooDeep, t.span.line, t.span.column⟩) st
  else do
    let depth := st.depth + 1
    let (result, st') ← m { st with depth, trace := .level depth :: st.trace }
    return (result, { st' with depth := st'.depth - 1 })

theorem bind_of_ok {m : Machine α} {st st' : State} {a : α} (ran : m st = some (.ok a, st')) :
    (m >>= k) st = k a st' := by
  show (m st).bind _ = _
  rw [ran]
  rfl

theorem bind_of_error {m : Machine α} {st st' : State} {refusal : Refusal}
    (ran : m st = some (.error refusal, st')) : (m >>= k) st = some (.error refusal, st') := by
  show (m st).bind _ = _
  rw [ran]
  rfl

section

variable {label : Label} {round : σ → Machine (Round σ β)} {fuel : Nat} {state state' : σ}
  {result : β} {refusal : Refusal} {st st' : State}

theorem loop_of_error (ran : round state st = some (.error refusal, st')) :
    loop label round (fuel + 1) state st = some (.error refusal, st') := by
  show (round state >>= _) st = _
  rw [bind_of_error ran]

theorem loop_of_done (ran : round state st = some (.ok (.done result), st')) :
    loop label round (fuel + 1) state st = some (.ok result, st') := by
  show (round state >>= _) st = _
  rw [bind_of_ok ran]
  rfl

theorem loop_of_more (ran : round state st = some (.ok (.more state'), st')) :
    loop label round (fuel + 1) state st = loop label round fuel state'
      { st' with trace := .progress label st.feed.current st'.feed.current :: st'.trace } := by
  show (round state >>= _) st = _
  rw [bind_of_ok ran]
  rfl

end

end Machine

/-! ## Runs that follow a reader -/

/-- The feed is one of the text, apart from the place where its last token ended. -/
def IsInside (text : String) (f : Feed) : Prop :=
  ∃ stop, ({ f with previousStop := stop } : Feed).IsIn text.toList

theorem IsInside.rewind {text : String} {f saved : Feed} (h : IsInside text f)
    (earlier : IsInside text saved) :
    IsInside text (f.rewind saved) ∧ (f.rewind saved).stream = saved.stream := by
  obtain ⟨_, here⟩ := h
  obtain ⟨stop, there⟩ := earlier
  refine ⟨⟨stop, here.rewind there⟩, ?_⟩
  have scanner : (f.rewind saved).cursor.scanner = saved.cursor.scanner :=
    (here.scanner_rewind there).1
  rw [Feed.stream, scanner]
  rfl

/-- A state of a run on the text, with the counter at `c`. -/
structure IsReading (text : String) (c : Nat) (st : State) : Prop where
  inside : IsInside text st.feed
  depth : st.depth = c
  sound : ∀ event ∈ st.trace, event.IsSound

/-- A state that shows the stream. -/
structure Shows (text : String) (c : Nat) (s : Stream) (st : State) : Prop
    extends IsReading text c st where
  stream : st.feed.stream = s
  tiled : s.IsTiled (tokensOf text)

variable {α β σ : Type} {text : String} {c : Nat} {s s' : Stream} {st : State}
  {outcome : Option (Except Refusal α × State)}

/-- The run ended as the reader did, and the counter is where it was. -/
inductive Ended (text : String) (c : Nat) :
    Except Refusal (α × Stream) → Option (Except Refusal α × State) → Prop where
  | ok {a : α} {s' : Stream} {st' : State} (shows : Shows text c s' st') :
      Ended text c (.ok (a, s')) (some (.ok a, st'))
  | error {refusal : Refusal} {st' : State} (reading : IsReading text c st') :
      Ended text c (.error refusal) (some (.error refusal, st'))

/-- With enough fuel, runs from states that show the stream end as the reader does. -/
def Follows (text : String) (c : Nat) (s : Stream) (m : Nat → Machine α) (r : Reader α) : Prop :=
  ∃ bound, ∀ fuel ≥ bound, ∀ st, Shows text c s st → Ended text c (r s) (m fuel st)

theorem Ended.exists_of_ok {a : α} (ended : Ended text c (.ok (a, s')) outcome) :
    ∃ st', outcome = some (.ok a, st') ∧ Shows text c s' st' := by
  cases ended with
  | ok shows => exact ⟨_, rfl, shows⟩

theorem Ended.exists_of_error {refusal : Refusal} (ended : Ended text c (.error refusal) outcome) :
    ∃ st', outcome = some (.error refusal, st') ∧ IsReading text c st' := by
  cases ended with
  | error reading => exact ⟨_, rfl, reading⟩

theorem Shows.current (shows : Shows text c s st) : st.feed.current = s.current := by
  rw [← shows.stream]
  rfl

theorem Shows.previousStop (shows : Shows text c s st) : st.feed.previousStop = s.previousStop := by
  rw [← shows.stream]
  rfl

theorem IsReading.note (reading : IsReading text c st) {event : Event} (sound : event.IsSound) :
    IsReading text c { st with trace := event :: st.trace } := by
  refine ⟨reading.inside, reading.depth, fun other member => ?_⟩
  rcases List.mem_cons.1 member with rfl | older
  · exact sound
  · exact reading.sound other older

theorem Shows.note (shows : Shows text c s st) {event : Event} (sound : event.IsSound) :
    Shows text c s { st with trace := event :: st.trace } :=
  ⟨shows.toIsReading.note sound, shows.stream, shows.tiled⟩

/-- Where a token was taken, the current one is later in the text. -/
theorem isSound_progress (label : Label) (shows : Shows text c s st) {st' : State}
    (shows' : Shows text c s' st') (passes : s.Passes s') :
    (Event.progress label st.feed.current st'.feed.current).IsSound := by
  show st.feed.current.span.start < st'.feed.current.span.start
  rw [shows.current, shows'.current]
  have solid := shows.tiled.start_lt_stop passes.1
  obtain ⟨-, next⟩ := shows.tiled.advance_bounds passes.1
  obtain ⟨-, later⟩ := (shows.tiled.advance passes.1).le_of_leads passes.2
  omega

/-- The end of a text has no extent. -/
theorem stop_eq_start_of_eof {f : Feed} (inside : f.IsIn text.toList)
    (ended : f.current.kind = .eof) : f.current.span.stop = f.current.span.start := by
  obtain ⟨scanner, done, after, -, taken⟩ := inside.current
  have empty := (Scanner.word_eq_nil (s := scanner) (by rw [taken]; exact ended)).1
  have start := after.stands.start
  have stop := after.stands.stop
  rw [taken] at start stop
  rw [empty, List.append_nil] at stop
  exact stop.trans start.symm

namespace Follows

theorem pure (a : α) : Follows text c s (fun _ => Pure.pure a) (Pure.pure a) :=
  ⟨0, fun _ _ _ shows => .ok shows⟩

variable {m : Nat → Machine α} {r : Reader α}

theorem bind {k : Nat → α → Machine β} {g : α → Reader β} (first : Follows text c s m r)
    (onwards : ∀ a s', r s = .ok (a, s') → Follows text c s' (fun n => k n a) (g a)) :
    Follows text c s (fun n => m n >>= k n) (r >>= g) := by
  obtain ⟨bound, runs⟩ := first
  cases read : r s with
  | error refusal =>
    rw [read] at runs
    refine ⟨bound, fun n enough st shows => ?_⟩
    obtain ⟨st', ran, reading⟩ := (runs n enough st shows).exists_of_error
    show Ended text c ((r >>= g) s) ((m n >>= k n) st)
    rw [Reader.bind_of_error read, Machine.bind_of_error ran]
    exact .error reading
  | ok result =>
    obtain ⟨a, s'⟩ := result
    rw [read] at runs
    obtain ⟨bound', runs'⟩ := onwards a s' read
    refine ⟨max bound bound', fun n enough st shows => ?_⟩
    obtain ⟨st', ran, shows'⟩ := (runs n (le_of_max_le_left enough) st shows).exists_of_ok
    show Ended text c ((r >>= g) s) ((m n >>= k n) st)
    rw [Reader.bind_of_ok read, Machine.bind_of_ok ran]
    exact runs' n (le_of_max_le_right enough) st' shows'

/-! ## Single tokens -/

theorem look (view : Token → Nat → α) : Follows text c s (fun _ => Machine.look view)
      fun s => .ok (view s.current s.previousStop, s) := by
  refine ⟨0, fun n _ st shows => ?_⟩
  show Ended text c (.ok (view s.current s.previousStop, s))
    (some (.ok (view st.feed.current st.feed.previousStop), st))
  rw [shows.current, shows.previousStop]
  exact .ok shows

theorem fail (refusal : Token → Refusal) : Follows text c s (fun _ => Machine.fail (α := α) refusal)
      fun s => .error (refusal s.current) := by
  refine ⟨0, fun n _ st shows => ?_⟩
  show Ended text c (.error (refusal s.current)) (some (.error (refusal st.feed.current), st))
  rw [shows.current]
  exact .error shows.toIsReading

theorem take : Follows text c s (fun _ => Machine.take) Reader.advance := by
  refine ⟨0, fun n _ st shows => .ok ?_⟩
  obtain ⟨⟨⟨stop, inside⟩, depth, sound⟩, stream, tiled⟩ := shows
  subst stream
  by_cases ended : st.feed.current.kind = .eof
  · rw [if_pos ended]
    have none : st.feed.stream.rest = [] := if_pos ended
    have stays : st.feed.stream.advance =
        { st.feed.stream with previousStop := st.feed.current.span.stop } := by
      rw [Stream.advance]
      split
      · rfl
      · next some => cases none.symm.trans some
    refine ⟨⟨⟨stop, inside⟩, depth, sound⟩, stays.symm, ?_⟩
    rw [stays]
    have stop_le := (stop_eq_start_of_eof inside ended).le
    exact ⟨tiled.suffix, stop_le, tiled.ordered, tiled.solid, tiled.ended⟩
  · rw [if_neg ended]
    exact ⟨⟨⟨_, inside.advance⟩, depth, sound⟩, inside.stream_advance ended, tiled.advance ended⟩

theorem lookAhead :
    Follows text c s (fun _ => Machine.lookAhead) fun s => .ok (Grammar.isIterationHead s, s) := by
  refine ⟨0, fun n _ st shows => ?_⟩
  obtain ⟨⟨⟨stop, inside⟩, depth, sound⟩, stream, tiled⟩ := shows
  have ahead : st.feed.isIterationHead.1 = Grammar.isIterationHead s := by
    rw [← stream]
    exact inside.isIterationHead
  show Ended text c (.ok (Grammar.isIterationHead s, s)) _
  rw [← ahead]
  -- looking ahead is taking two tokens and going back
  have later : IsInside text st.feed.advance.advance := ⟨_, inside.advance.advance⟩
  obtain ⟨back, same⟩ := later.rewind ⟨stop, inside⟩
  exact .ok ⟨⟨back, depth, sound⟩, same.trans stream, tiled⟩

/-! ## Loops, attempts and calls -/

theorem loop (label : Label) {m : Nat → σ → Machine (Round σ β)} {r : σ → Reader (Round σ β)}
    (turn : ∀ state s, Follows text c s (fun n => m n state) (r state))
    (advances : ∀ state s, s.IsTiled (tokensOf text) → TakesToken (r state) s) (state : σ) :
    Follows text c s (fun n => Machine.loop label (m n) n state) (rounds r state) := by
  -- the rounds need fuel of their own, and there are at most as many as there are tokens left
  have runs : ∃ bound, ∀ n ≥ bound, ∀ fuel ≥ s.left, ∀ st, Shows text c s st →
      Ended text c (rounds r state s) (Machine.loop label (m n) (fuel + 1) state st) := by
    induction size : s.left using Nat.strong_induction_on generalizing s state with
    | _ left ih =>
      subst size
      obtain ⟨bound, runs⟩ := turn state s
      cases read : r state s with
      | error refusal =>
        rw [read] at runs
        refine ⟨bound, fun n enough fuel _ st shows => ?_⟩
        obtain ⟨st', ran, reading⟩ := (runs n enough st shows).exists_of_error
        rw [Machine.loop_of_error ran, rounds, read]
        exact .error reading
      | ok result =>
        obtain ⟨out, s'⟩ := result
        rw [read] at runs
        cases out with
        | done b =>
          refine ⟨bound, fun n enough fuel _ st shows => ?_⟩
          obtain ⟨st', ran, shows'⟩ := (runs n enough st shows).exists_of_ok
          rw [Machine.loop_of_done ran, rounds_of_done read]
          exact .ok shows'
        | more state' =>
          by_cases tiled : s.IsTiled (tokensOf text)
          · have passes : s.Passes s' := advances state s tiled read
            have fewer := tiled.ended.left_lt passes
            obtain ⟨bound', runs'⟩ := ih s'.left fewer state' rfl
            refine ⟨max bound bound', fun n enough fuel room st shows => ?_⟩
            obtain ⟨fuel, rfl⟩ := Nat.exists_eq_add_one_of_ne_zero (by omega : fuel ≠ 0)
            obtain ⟨st', ran, shows'⟩ :=
              (runs n (le_of_max_le_left enough) st shows).exists_of_ok
            rw [Machine.loop_of_more ran, rounds_of_more read fewer]
            exact runs' n (le_of_max_le_right enough) fuel (by omega) _
              (shows'.note (isSound_progress label shows shows' passes))
          -- no state shows a stream of another text
          · exact ⟨0, fun n _ fuel _ st shows => absurd shows.tiled tiled⟩
  obtain ⟨bound, runs⟩ := runs
  refine ⟨max bound (s.left + 1), fun n enough st shows => ?_⟩
  have room := le_of_max_le_right enough
  obtain ⟨fuel, rfl⟩ := Nat.exists_eq_add_one_of_ne_zero (by omega : n ≠ 0)
  exact runs _ (le_of_max_le_left enough) fuel (by omega) st shows

/-- The counter is noted where a call comes back, and it is where it was. -/
theorem called (label : Label) (bounded : c ≤ maxNesting) (runs : Follows text c s m r) :
    Follows text c s (fun n => Machine.called label (m n)) r := by
  obtain ⟨bound, runs⟩ := runs
  refine ⟨bound, fun n enough st shows => ?_⟩
  have ended := runs n enough st shows
  show Ended text c (r s) ((m n st).bind _)
  generalize r s = result, m n st = outcome at ended
  have sound {st' : State} (reading : IsReading text c st') :
      (Event.call label st.depth st'.depth).IsSound := by
    rw [shows.depth, reading.depth]
    exact ⟨bounded, rfl⟩
  cases ended with
  | ok shows' => exact .ok (shows'.note (sound shows'.toIsReading))
  | error reading => exact .error (reading.note (sound reading))

/-- The tokens are noted where a call succeeds, and the second one is later. -/
theorem advancing (label : Label) (runs : Follows text c s m r)
    (advances : s.IsTiled (tokensOf text) → Yields r s fun _ s' => s.Passes s') :
    Follows text c s (fun n => Machine.advancing label (m n)) r := by
  obtain ⟨bound, runs⟩ := runs
  refine ⟨bound, fun n enough st shows => ?_⟩
  have ended := runs n enough st shows
  show Ended text c (r s) (((m n) >>= fun a => do
    let after ← Machine.look fun t _ => t
    Machine.note (.progress label st.feed.current after)
    return a) st)
  cases read : r s with
  | error refusal =>
    rw [read] at ended
    obtain ⟨st', ran, reading⟩ := ended.exists_of_error
    rw [Machine.bind_of_error ran]
    exact .error reading
  | ok result =>
    rw [read] at ended
    obtain ⟨st', ran, shows'⟩ := ended.exists_of_ok
    rw [Machine.bind_of_ok ran]
    exact .ok (shows'.note (isSound_progress label shows shows' (advances shows.tiled read)))

/-- Going back from wherever the attempt failed shows the stream at the parenthesis again. -/
theorem attempt (runs : Follows text c s m r) :
    Follows text c s (fun n => Machine.attempt (m n)) fun s =>
      if s.current.kind = .mark .lParen then
        match r s with
        | .ok (a, s') => .ok (some a, s')
        | .error _ => .ok (none, s)
      else .ok (none, s) := by
  obtain ⟨bound, runs⟩ := runs
  refine ⟨bound, fun n enough st shows => ?_⟩
  have ended := runs n enough st shows
  show Ended text c (if s.current.kind = .mark .lParen then _ else _)
    (if st.feed.current.kind = .mark .lParen then (m n st).bind _ else _)
  rw [shows.current]
  by_cases paren : s.current.kind = .mark .lParen
  · rw [if_pos paren, if_pos paren]
    generalize r s = result, m n st = outcome at ended
    cases ended with
    | ok shows' => exact .ok shows'
    | error reading =>
      -- the feed is still one of the text, so its cursor can be restored
      obtain ⟨back, same⟩ := reading.inside.rewind shows.inside
      have sound : (Event.retry st.feed.stream (_ : Feed).stream).IsSound :=
        ⟨by rw [shows.stream]; exact paren, same⟩
      exact .ok ⟨⟨back, reading.depth, (reading.note sound).sound⟩, same.trans shows.stream,
        shows.tiled⟩
  · rw [if_neg paren, if_neg paren]
    exact .ok shows

/-- One level down the counter is higher by one, and it is lowered again. -/
theorem nested (bounded : c < maxNesting) (runs : Follows text (c + 1) s m r) :
    Follows text c s (fun n => Machine.nested (m n)) r := by
  obtain ⟨bound, runs⟩ := runs
  refine ⟨bound, fun n enough st shows => ?_⟩
  have depth := shows.depth
  have allowed : (Event.level (st.depth + 1)).IsSound := by
    show st.depth + 1 ≤ maxNesting
    omega
  have below := shows.toIsReading.note allowed
  have ended := runs n enough { st with
      depth := st.depth + 1, trace := .level (st.depth + 1) :: st.trace }
    ⟨⟨shows.inside, by rw [depth], below.sound⟩, shows.stream, shows.tiled⟩
  show Ended text c (r s) (if maxNesting ≤ st.depth then _ else (m n _).bind _)
  rw [if_neg (by omega)]
  generalize r s = result, m n _ = outcome at ended
  -- the counter is back on either way out
  have lowered {st' : State} (reading : IsReading text (c + 1) st') :
      IsReading text c { st' with depth := st'.depth - 1 } := by
    refine ⟨reading.inside, ?_, reading.sound⟩
    rw [reading.depth, Nat.add_sub_cancel]
  cases ended with
  | ok shows' => exact .ok ⟨lowered shows'.toIsReading, shows'.stream, shows'.tiled⟩
  | error reading => exact .error (lowered reading)

/-- At the highest value of the counter, nothing is called. -/
theorem nested_of_max :
    Follows text maxNesting s (fun n => Machine.nested (m n)) (refuse .tooDeep) := by
  refine ⟨0, fun n _ st shows => ?_⟩
  show Ended text maxNesting _ (if maxNesting ≤ st.depth then _ else _)
  rw [if_pos shows.depth.ge]
  show Ended text maxNesting (.error ⟨.tooDeep, s.current.span.line, s.current.span.column⟩)
    (some (.error ⟨.tooDeep, st.feed.current.span.line, st.feed.current.span.column⟩, st))
  rw [shows.current]
  exact .error shows.toIsReading

/-- What needs fuel to start needs one more. -/
theorem of_succ (runs : Follows text c s (fun n => m (n + 1)) r) : Follows text c s m r := by
  obtain ⟨bound, runs⟩ := runs
  refine ⟨bound + 1, fun n enough st shows => ?_⟩
  obtain ⟨n, rfl⟩ := Nat.exists_eq_add_one_of_ne_zero (by omega : n ≠ 0)
  exact runs n (by omega) st shows

end Follows

/-! ## Routines -/

/-- The calls that go one level down, and the fuel for loops. -/
structure Calls where
  fuel : Nat
  statement : Machine Stmt
  expression : Machine Expr
  operand : Machine Expr

/-- The calls follow the readers of a level. -/
structure Context (text : String) (c : Nat) (level : Level) (calls : Nat → Calls) : Prop where
  fuel : ∀ n, (calls n).fuel = n
  bounded : c ≤ maxNesting
  places : level.Places (tokensOf text)
  statement : ∀ s, Follows text c s (fun n => (calls n).statement) level.statement
  expression : ∀ s, Follows text c s (fun n => (calls n).expression) level.expression
  operand : ∀ s, Follows text c s (fun n => (calls n).operand) level.operand

/-- A piece of reading, as a reader and as a run that follows it. -/
structure Routine (α : Type) where
  read : Level → Reader α
  run : Calls → Machine α
  follows : ∀ {text : String} {c : Nat} {level : Level} {calls : Nat → Calls},
    Context text c level calls → ∀ s, Follows text c s (fun n => run (calls n)) (read level)

namespace Routine

instance : Monad Routine where
  pure a := ⟨fun _ => Pure.pure a, fun _ => Pure.pure a, fun _ _ => .pure a⟩
  bind x f := {
    read := fun level => x.read level >>= fun a => (f a).read level
    run := fun calls => x.run calls >>= fun a => (f a).run calls
    follows := fun context s => (x.follows context s).bind fun a s' _ => (f a).follows context s' }

def look (view : Token → Nat → α) : Routine α :=
  ⟨fun _ s => .ok (view s.current s.previousStop, s), fun _ => Machine.look view,
    fun _ _ => .look view⟩

def fail (refusal : Token → Refusal) : Routine α :=
  ⟨fun _ s => .error (refusal s.current), fun _ => Machine.fail refusal, fun _ _ => .fail refusal⟩

def advance : Routine Unit :=
  ⟨fun _ => Reader.advance, fun _ => Machine.take, fun _ _ => .take⟩

def isIterationHead : Routine Bool :=
  ⟨fun _ s => .ok (Grammar.isIterationHead s, s), fun _ => Machine.lookAhead,
    fun _ _ => .lookAhead⟩

def statement : Routine Stmt := ⟨Level.statement, Calls.statement, Context.statement⟩

def expression : Routine Expr := ⟨Level.expression, Calls.expression, Context.expression⟩

def operand : Routine Expr := ⟨Level.operand, Calls.operand, Context.operand⟩

/-- A call, noted as it comes back. -/
def called (label : Label) (x : Routine α) : Routine α where
  read := x.read
  run := fun calls => (x.run calls).called label
  follows := fun context s => .called label context.bounded (x.follows context s)

/-- What the routine reads, it takes a token for. -/
def Advances (x : Routine α) : Prop :=
  ∀ ⦃T level⦄, level.Places T → ∀ ⦃s⦄, s.IsTiled T →
    Yields (x.read level) s fun _ s' => s.Passes s'

/-- Every round that goes on takes a token. -/
def TakesTokens (round : σ → Routine (Round σ β)) : Prop :=
  ∀ ⦃T level⦄, level.Places T → ∀ state ⦃s⦄, s.IsTiled T → TakesToken ((round state).read level) s

/-- Something that has to take a token. -/
def advancing (label : Label) (x : Routine α) (advances : x.Advances) : Routine α where
  read := x.read
  run := fun calls => (x.run calls).advancing label
  follows := fun context s =>
    .advancing label (x.follows context s) fun tiled => advances context.places tiled

/-- A loop in which every round that goes on has to take a token. -/
def loop (label : Label) (round : σ → Routine (Round σ β)) (takes : TakesTokens round)
    (state : σ) : Routine β where
  read := fun level => rounds (fun state => (round state).read level) state
  run := fun calls => Machine.loop label (fun state => (round state).run calls) calls.fuel state
  follows := fun context s => by
    simp only [context.fuel]
    exact .loop label (fun state s => (round state).follows context s)
      (fun state _ tiled => takes context.places state tiled) state

/-- Something that is tried at an opening parenthesis. -/
def attempt (x : Routine α) : Routine (Option α) where
  read := fun level s =>
    if s.current.kind = .mark .lParen then
      match x.read level s with
      | .ok (a, s') => .ok (some a, s')
      | .error _ => .ok (none, s)
    else .ok (none, s)
  run := fun calls => (x.run calls).attempt
  follows := fun context s => .attempt (x.follows context s)

/-! ## What routines read -/

section

variable {level : Level}

@[simp] theorem read_pure (a : α) : (Pure.pure a : Routine α).read level = Pure.pure a := rfl

@[simp] theorem read_bind (x : Routine α) (f : α → Routine β) :
    (x >>= f).read level = x.read level >>= fun a => (f a).read level := rfl

@[simp] theorem read_ite (p : Prop) [Decidable p] (x y : Routine α) :
    (if p then x else y).read level = if p then x.read level else y.read level :=
  apply_ite (fun x : Routine α => x.read level) p x y

@[simp] theorem read_advance : advance.read level = Reader.advance := rfl

@[simp] theorem read_statement : statement.read level = level.statement := rfl

@[simp] theorem read_expression : expression.read level = level.expression := rfl

@[simp] theorem read_operand : operand.read level = level.operand := rfl

@[simp] theorem read_called (label : Label) (x : Routine α) :
    (x.called label).read level = x.read level := rfl

@[simp] theorem read_loop (label : Label) (round : σ → Routine (Round σ β))
    (takes : TakesTokens round) (state : σ) : (loop label round takes state).read level =
      rounds (fun state => (round state).read level) state := rfl

theorem read_attempt_of_ok {x : Routine α} {a : α} (paren : s.current.kind = .mark .lParen)
    (read : x.read level s = .ok (a, s')) : x.attempt.read level s = .ok (some a, s') := by
  show (if s.current.kind = .mark .lParen then _ else _) = _
  rw [if_pos paren, read]

theorem read_attempt_of_error {x : Routine α} {refusal : Refusal}
    (paren : s.current.kind = .mark .lParen) (refused : x.read level s = .error refusal) :
    x.attempt.read level s = .ok (none, s) := by
  show (if s.current.kind = .mark .lParen then _ else _) = _
  rw [if_pos paren, refused]

end

/-! ## Single tokens -/

def current : Routine Token := look fun t _ => t

def isAt (k : Kind) : Routine Bool := look fun t _ => t.kind = k

def spanFrom (start : Span) : Routine Span :=
  look fun _ stop => { start with stop := max stop start.start }

def throw (refusal : Refusal) : Routine α := fail fun _ => refusal

def refuse (cause : Refusal.Cause) : Routine α :=
  fail fun t => ⟨cause, t.span.line, t.span.column⟩

def unexpected (expected : Expectation) : Routine α := do
  refuse (.unexpected (← current).kind expected)

def accept (k : Kind) : Routine Bool := do
  if ← isAt k then
    advance
    return true
  else
    return false

def expect (k : Kind) : Routine Unit := do
  unless ← accept k do unexpected (.kind k)

def endOfStatement : Routine Unit := do
  if ← accept (.mark .semicolon) then return
  let t ← current
  unless t.kind = .eof || t.kind = .mark .rBrace || t.newlineBefore do unexpected .semicolon

def identifier : Routine Identifier := do
  let t ← current
  match t.kind with
  | .identifier name =>
    advance
    return ⟨name, t.span⟩
  | _ => unexpected .identifier

def propertyName : Routine Identifier := do
  let t ← current
  match t.kind with
  | .identifier name =>
    advance
    return ⟨name, t.span⟩
  | .keyword word =>
    advance
    return ⟨word.text, t.span⟩
  | _ => unexpected .propertyName

section

variable {level : Level}

@[simp] theorem read_current : current.read level = Reader.current := rfl

@[simp] theorem read_isAt (k : Kind) : (isAt k).read level = Reader.isAt k := rfl

@[simp] theorem read_spanFrom (start : Span) :
    (spanFrom start).read level = Reader.spanFrom start := rfl

@[simp] theorem read_throw (refusal : Refusal) :
    (throw refusal : Routine α).read level = MonadExcept.throw refusal := rfl

@[simp] theorem read_refuse (cause : Refusal.Cause) :
    (refuse cause : Routine α).read level = Reader.refuse cause := rfl

@[simp] theorem read_unexpected (expected : Expectation) :
    (unexpected expected : Routine α).read level = Reader.unexpected expected := rfl

@[simp] theorem read_accept (k : Kind) : (accept k).read level = Reader.accept k := by
  simp only [accept, Reader.accept, read_bind, read_ite, read_isAt, read_advance, read_pure]

@[simp] theorem read_expect (k : Kind) : (expect k).read level = Reader.expect k := by
  simp only [expect, Reader.expect, read_bind, read_ite, read_accept, read_unexpected, read_pure]

@[simp] theorem read_endOfStatement : endOfStatement.read level = Reader.endOfStatement := by
  simp [endOfStatement, Reader.endOfStatement]

@[simp] theorem read_identifier : identifier.read level = Reader.identifier := by
  refine congrArg (Reader.current >>= ·) (funext fun t => ?_)
  obtain ⟨kind, _, _⟩ := t
  cases kind <;> rfl

@[simp] theorem read_propertyName : propertyName.read level = Reader.propertyName := by
  refine congrArg (Reader.current >>= ·) (funext fun t => ?_)
  obtain ⟨kind, _, _⟩ := t
  cases kind <;> rfl

end

end Routine

end Descent

end SourceMachine

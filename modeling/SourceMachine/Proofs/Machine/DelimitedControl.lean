import SourceMachine.Proofs.Session.Lasting

/-!
# Delimited control

`shift` cuts the stack at its nearest delimiter.  The frames above the delimiter become a
captured piece, the delimiter goes, and the argument of `shift` is called with the piece on
the stack below.  Calling the piece with a value puts its frames on top of whatever stack
there is at that time.

Cutting and putting together are inverse to each other (`Stack.split?_eq_some_iff`,
`Stack.splice_of_split`), so nothing is lost and nothing changes its place.  A captured
stack lasts as it is (`Lasting`), so each call of it finds the same frames.
-/

namespace SourceMachine

/-! ## Cutting stacks and putting them together -/

namespace Stack

variable {s piece below : Stack}

theorem split?_push {f : Frame} (cut : s.split? = some (piece, below)) (other : f ≠ .delimiter) :
    (s.push f).split? = some (piece.push f, below) := by
  obtain ⟨parts, absent⟩ := split?_eq_some_iff.1 cut
  refine split?_eq_some_iff.2 ⟨congrArg (f :: ·) parts, ?_⟩
  rw [frames_push, List.mem_cons, not_or]
  exact ⟨other.symm, absent⟩

/-- Both pieces are above the delimiter where one is put on top of the other. -/
theorem split?_splice {upper : Stack} (cut : s.split? = some (piece, below))
    (absent : .delimiter ∉ upper.frames) :
    (s.splice upper).split? = some (piece.splice upper, below) := by
  obtain ⟨parts, clear⟩ := split?_eq_some_iff.1 cut
  refine split?_eq_some_iff.2 ⟨?_, ?_⟩
  · rw [frames_splice, frames_splice, parts, List.append_assoc]
  · rw [frames_splice, List.mem_append, not_or]
    exact ⟨absent, clear⟩

theorem split?_delimiter (s : Stack) : (s.push .delimiter).split? = some (.ofFrames [], s) :=
  split?_eq_some_iff.2 ⟨rfl, List.not_mem_nil⟩

theorem split?_pushAll (cut : s.split? = some (piece, below)) (env : Env) (body : List Stmt) :
    ∃ piece', (s.pushAll env body).split? = some (piece', below) := by
  induction body with
  | nil => exact ⟨piece, cut⟩
  | cons stmt body ih =>
    obtain ⟨piece', waiting⟩ := ih
    exact ⟨_, split?_push waiting (by simp)⟩

theorem pushAll_append (s : Stack) (env : Env) (first later : List Stmt) :
    s.pushAll env (first ++ later) = (s.pushAll env later).pushAll env first :=
  List.foldr_append

/-- With the delimiter and the piece put back, the stack is what it was. -/
theorem splice_of_split (cut : s.split? = some (piece, below)) :
    (below.push .delimiter).splice piece = s := by
  apply Stack.ext
  rw [frames_splice, frames_push]
  exact (split?_eq_some_iff.1 cut).1.symm

theorem depth_of_split (cut : s.split? = some (piece, below)) :
    s.depth = piece.depth + 1 + below.depth := by
  rw [← splice_of_split cut, depth_splice, depth_push]
  omega

end Stack

namespace Machine

/-! ## Calls of `shift` and of what it captured -/

/-- The `shift` that the next step calls: its argument, its place, the scopes of the call and
    the stack below it. -/
def shifting? (m : Machine) : Option (Value × Span × Env × Stack) :=
  match m.control, m.stack.pop? with
  | some (.value _), some (.apply f [g] span env, rest) =>
    match m.world.heap.callee? f with
    | some (.builtin (.control .shift)) => some (g, span, env, rest)
    | _ => none
  | _, _ => none

/-- The captured stack that the next step calls, the value that it is called with, and the
    stack below the call. -/
def resuming? (m : Machine) : Option (ContinuationId × Value × Stack) :=
  match m.control, m.stack.pop? with
  | some (.value _), some (.apply (.continuation id) [w] _ _, rest) => some (id, w, rest)
  | _, _ => none

section

variable {m : Machine} {v w f g : Value} {span : Span} {env inner : Env} {rest piece below : Stack}
  {id : ContinuationId}

theorem shifting?_eq_some (shifting : m.shifting? = some (g, span, env, rest)) :
    ∃ v f, m.control = some (.value v) ∧ m.stack = rest.push (.apply f [g] span env) ∧
      m.world.heap.callee? f = some (.builtin (.control .shift)) := by
  rw [shifting?] at shifting
  split at shifting
  · next v f g' span' env' rest' control popped =>
    split at shifting
    · next leads =>
      cases shifting
      exact ⟨v, f, control, Stack.pop?_eq_some popped, leads⟩
    · cases shifting
  · cases shifting

theorem resuming?_eq_some (resuming : m.resuming? = some (id, w, rest)) :
    ∃ v span inner, m.control = some (.value v) ∧
      m.stack = rest.push (.apply (.continuation id) [w] span inner) := by
  rw [resuming?] at resuming
  split at resuming
  · next v id' w' span inner rest' control popped =>
    cases resuming
    exact ⟨v, span, inner, control, Stack.pop?_eq_some popped⟩
  · cases resuming

section

variable (top : m.stack = rest.push (.apply f [g] span env))
  (leads : m.world.heap.callee? f = some (.builtin (.control .shift)))

include top leads

/-- Calling `shift` on a stack that can be cut calls its argument with the piece, on the stack
    below. -/
theorem transition_of_shift (cut : rest.split? = some (piece, below)) : m.transition (.value v) =
      (.ok (.value g), { m.withHeap (m.world.heap.newContinuation ⟨.delimited, env, piece⟩).2 with
        env
        stack := below.push
          (.apply g [.continuation ⟨m.world.heap.continuations.size⟩] span env) }) := by
  rw [transition_of_top top]
  show (m.popped (.apply f [g] span env) rest).call f [g] span = _
  rw [call, show (m.popped _ rest).world.heap.callee? f = _ from leads]
  show (m.popped (.apply f [g] span env) rest).callControl .shift g span = _
  rw [callControl, show (m.popped (.apply f [g] span env) rest).stack.split? = _ from cut]
  rfl

/-- Calling `shift` on a stack without a delimiter is at fault. -/
theorem transition_of_shift_of_none (uncut : rest.split? = none) : m.transition (.value v) =
      (.error ⟨.shiftWithoutReset, span⟩, m.popped (.apply f [g] span env) rest) := by
  rw [transition_of_top top]
  show (m.popped (.apply f [g] span env) rest).call f [g] span = _
  rw [call, show (m.popped _ rest).world.heap.callee? f = _ from leads]
  show (m.popped (.apply f [g] span env) rest).callControl .shift g span = _
  rw [callControl, show (m.popped (.apply f [g] span env) rest).stack.split? = _ from uncut]

end

/-- Calling a captured piece with a value puts its frames on top of the stack. -/
theorem transition_of_piece (top : m.stack = rest.push (.apply (.continuation id) [w] span inner))
    (captured : m.world.heap.continuation? id = some ⟨.delimited, env, piece⟩) :
    m.transition (.value v) = (.ok (.value w), { m with env, stack := rest.splice piece }) :=
  transition_of_captured top captured v

/-- A step that calls `shift`.  The new stack is not deeper than the old one, so there is
    room for it. -/
theorem step_of_shift (control : m.control = some (.value v))
    (top : m.stack = rest.push (.apply f [g] span env))
    (leads : m.world.heap.callee? f = some (.builtin (.control .shift)))
    (cut : rest.split? = some (piece, below)) (fits : m.stack.depth ≤ m.maxDepth) :
    m.step = (.proceeded,
      { m.ticked.withHeap (m.world.heap.newContinuation ⟨.delimited, env, piece⟩).2 with
        control := some (.value g)
        env
        stack := below.push
          (.apply g [.continuation ⟨m.world.heap.continuations.size⟩] span env) }) := by
  have room : ¬m.maxDepth < below.depth + 1 := by
    rw [top, Stack.depth_push, Stack.depth_of_split cut] at fits
    omega
  have notFinal : m.final? = none := final?_of_frame control top (by simp)
  have moved := transition_of_shift (m := m.ticked) (v := v) top leads cut
  rw [step_of_transition control notFinal, moved]
  exact if_neg room

/-- A step that calls a captured piece. -/
theorem step_of_piece (control : m.control = some (.value v))
    (top : m.stack = rest.push (.apply (.continuation id) [w] span inner))
    (captured : m.world.heap.continuation? id = some ⟨.delimited, env, piece⟩) :
    m.step = if m.maxDepth < (rest.splice piece).depth then
        (.failed (.overflow (piece.depth + rest.depth)),
          { m.ticked with env, stack := rest.splice piece }.unwind)
      else (.proceeded, { m.ticked with
        control := some (.value w)
        env
        stack := rest.splice piece }) := by
  have notFinal : m.final? = none := final?_of_frame control top (by simp)
  have moved := transition_of_piece (m := m.ticked) (v := v) top captured
  rw [step_of_transition control notFinal, moved, ← Stack.depth_splice]
  rfl

end

/-- **Delimited control.**  A stack cannot be cut exactly when it has no delimiter.  If it is
    cut, the piece has no delimiter, the frames of the piece, the delimiter and the frames
    below make up the stack in this order, and putting the delimiter and the piece back gives
    the stack again; no other two stacks would do.

    In every state of a session that is about to call `shift`, the step is at fault if the
    stack of the call cannot be cut.  Otherwise it calls the argument with a new captured
    stack, in the same scopes, on the stack below the delimiter.  In every later state, on
    every stack, a call of this captured stack with a value goes on with the value and the
    frames of the same piece on top of that stack, unless this makes the stack deeper than
    the settings allow. -/
theorem delimited_control {start m : Machine} (fits : start.Fits) (visited : start.Visits m) :
    (∀ s : Stack, s.depth = s.frames.length ∧ (s.split? = none ↔ .delimiter ∉ s.frames) ∧
      ∀ piece below, (s.split? = some (piece, below) ↔
          .delimiter ∉ piece.frames ∧ s.frames = piece.frames ++ [.delimiter] ++ below.frames) ∧
        (s.split? = some (piece, below) → (below.push .delimiter).splice piece = s)) ∧
    ∀ g span env rest, m.shifting? = some (g, span, env, rest) →
      (rest.split? = none → m.step.1 = .failed (.fault ⟨.shiftWithoutReset, span⟩)) ∧
      ∀ piece below, rest.split? = some (piece, below) →
        let k : ContinuationId := ⟨m.world.heap.continuations.size⟩
        (m.step.1 = .proceeded ∧ m.step.2.control = some (.value g) ∧ m.step.2.env = env ∧
          m.step.2.stack = below.push (.apply g [.continuation k] span env)) ∧
        ∀ m' w t, m.step.2.Visits m' → m'.resuming? = some (k, w, t) →
          if m'.maxDepth < (t.splice piece).depth then
            m'.step.1 = .failed (.overflow (piece.depth + t.depth))
          else
            m'.step.1 = .proceeded ∧ m'.step.2.control = some (.value w) ∧
              m'.step.2.env = env ∧ m'.step.2.stack.frames = piece.frames ++ t.frames := by
  refine ⟨fun s => ⟨s.depth_eq, Stack.split?_eq_none_iff, fun piece below => ⟨?_,
    Stack.splice_of_split⟩⟩, ?_⟩
  · rw [Stack.split?_eq_some_iff, List.append_assoc]
    exact And.comm
  intro g span env rest shifting
  obtain ⟨v, f, control, top, leads⟩ := shifting?_eq_some shifting
  constructor
  · intro uncut
    have failed := transition_of_shift_of_none (m := m.ticked) (v := v) top leads uncut
    rw [step_of_transition control (final?_of_frame control top (by simp)), failed]
  intro piece below cut k
  obtain ⟨births, reached⟩ := visited
  have room := fits.reaches reached _ control (by simp)
  have moved := step_of_shift control top leads cut room
  refine ⟨⟨by rw [moved], by rw [moved], by rw [moved], by rw [moved]⟩, ?_⟩
  rintro m' w t ⟨later, onwards⟩ resuming
  -- the piece is at its address in every later heap
  have made : m.step.2.world.heap.continuation? k = some ⟨.delimited, env, piece⟩ := by
    rw [moved]
    exact Array.getElem?_push_size
  have captured := onwards.lasts.continuations made
  obtain ⟨v', span', inner, control', top'⟩ := resuming?_eq_some resuming
  rw [step_of_piece control' top' captured]
  by_cases deep : m'.maxDepth < (t.splice piece).depth
  · rw [if_pos deep, if_pos deep]
  · rw [if_neg deep, if_neg deep]
    exact ⟨rfl, rfl, rfl, t.frames_splice piece⟩

/-- The same where the captured stack is called twice, and the first call is an argument of the
    second one. -/
theorem delimited_control_of_two_calls :
    let start := Machine.new { maxDepth := 40, prelude := false } Table.standard {}
    let text := "reset(() => \x7b !!shift(k => k(k(true))); \x7d);"
    ∃ p, Program.read text = .ok p ∧
      let m := ((start.load p).run 18).2
      let k : ContinuationId := ⟨m.world.heap.continuations.size⟩
      ∃ g span env rest piece below, m.shifting? = some (g, span, env, rest) ∧
        rest.split? = some (piece, below) ∧ piece.depth = 2 ∧
        m.step.2.stack = below.push (.apply g [.continuation k] span env) ∧
        ∀ n ∈ [11, 15], ∃ w t, (m.step.2.run n).2.resuming? = some (k, w, t) ∧
          (m.step.2.run n).2.step.2.stack.frames = piece.frames ++ t.frames := by
  intro start text
  obtain ⟨p, read, ⟨⟨g, span, env, rest⟩, shifting, ⟨piece, below⟩, cut, two⟩, twice⟩ :=
    Program.exists_read (by decide +kernel : ∃ p ∈ (Program.read text).toOption,
      let m := ((start.load p).run 18).2
      (∃ found ∈ m.shifting?, ∃ parts ∈ found.2.2.2.split?, parts.1.depth = 2) ∧
      ∀ n ∈ [11, 15], ∃ found ∈ (m.step.2.run n).2.resuming?,
        found.1 = ⟨m.world.heap.continuations.size⟩ ∧
          2 + found.2.2.depth ≤ (m.step.2.run n).2.maxDepth)
  have fits : start.Fits := by
    intro c control
    cases control
  have visited : start.Visits ((start.load p).run 18).2 := Visits.run ⟨[], .load .refl read⟩ 18
  obtain ⟨-, call⟩ := (delimited_control fits visited).2 g span env rest shifting
  obtain ⟨⟨-, -, -, called⟩, later⟩ := call piece below cut
  refine ⟨p, read, g, span, env, rest, piece, below, shifting, cut, two, called, ?_⟩
  intro n member
  obtain ⟨⟨k, w, t⟩, resuming, rfl, small⟩ := twice n member
  have resumed := later _ w t (Visits.run ⟨[], .refl⟩ n) resuming
  rw [Stack.depth_splice, show piece.depth = 2 from two, if_neg (not_lt.2 small)] at resumed
  exact ⟨w, t, resuming, resumed.2.2.2⟩

end Machine

end SourceMachine

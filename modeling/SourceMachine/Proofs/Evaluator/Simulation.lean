import SourceMachine.Proofs.Evaluator.Basic
import SourceMachine.Proofs.Evaluator.Invariant
import SourceMachine.Proofs.Machine.Config

/-!
# The machine goes where the evaluator goes

`Simulates` says what the machine does from a configuration while something is evaluated
in the same world, new return points forgotten.  If the evaluation ends, the machine comes
to the place that belongs to the way in which it ended (`Arrives`); the stack below is the
one of the configuration, whatever it is, so that pieces can be put together
(`Simulates.bind`).  If the evaluation runs out of fuel, the machine makes at least that
many steps; so fuel does not hide an end of the machine.
-/

namespace SourceMachine

/-- Where the machine is when an evaluation on a stack and at a home has ended. -/
inductive Arrives (start : Heap) (home : Home) (stack : Stack) (h : Heap) :
    Config → Except Exit Value → World → Prop where
  /-- The value is there, and the stack is as it was. -/
  | value {v : Value} {env : Env} {w : World} (known : v.IsKnown start.continuations.size)
      (follows : w.Follows start) (grown : h.Extends w.heap) :
      Arrives start home stack h ⟨.value v, env, stack, w⟩ (.ok v) (w.forget start)
  /-- The next transition fails. -/
  | fault {x y : Config} {fault : Fault} (fails : x.Fails fault y) :
      Arrives start home stack h x (.error (.fault fault)) (y.world.forget start)
  /-- The value is back where the innermost call was made. -/
  | returned {v : Value} {env : Env} {rest : Stack} {w : World}
      (known : v.IsKnown start.continuations.size) (follows : w.Follows start)
      (grown : h.Extends w.heap) (isHome : home = some (env, rest)) :
      Arrives start home stack h ⟨.value v, env, rest, w⟩ (.error (.returned v)) (w.forget start)
  /-- The next transition replaces the stack by a captured one. -/
  | jumped {x : Config} {k : Captured} {v : Value} {w : World} (captured : k ∈ start.continuations)
      (whole : k.kind = .undelimited) (known : v.IsKnown start.continuations.size)
      (follows : w.Follows start) (steps : x.Steps ⟨.value v, k.env, k.stack, w⟩) :
      Arrives start home stack h x (.error (.jumped k v)) (w.forget start)
  /-- The next transition applies a control operator. -/
  | control {x : Config} {w : World} (applies : ∀ m : Machine, (m.holding x).AppliesControl) :
      Arrives start home stack h x (.error .control) w

/-- What the machine does from a configuration while something is evaluated: it comes to
    where the evaluation ends, or it makes as many steps as there was fuel. -/
def Simulates (start : Heap) (fuel : Nat) (home : Home) (stack : Stack) (h : Heap) (x : Config) :
    Option (Except Exit Value × World) → Prop
  | none => ∃ count y, Config.Goes count x y ∧ fuel ≤ count
  | some (result, w) => ∃ count y, Config.Goes count x y ∧ Arrives start home stack h y result w

/-- Ending without a value has nothing to do with the stack. -/
theorem Arrives.elsewhere {start h h' : Heap} {home home' : Home} {stack stack' : Stack}
    {x : Config} {exit : Exit} {w : World}
    (arrives : Arrives start home stack h x (.error exit) w) (grown : h'.Extends h)
    (homes : ∀ caller, home = some caller → home' = some caller) :
    Arrives start home' stack' h' x (.error exit) w := by
  cases arrives with
  | fault fails => exact .fault fails
  | returned known follows later isHome =>
    exact .returned known follows (grown.trans later) (homes _ isHome)
  | jumped captured whole known follows steps => exact .jumped captured whole known follows steps
  | control applies => exact .control applies

namespace Simulates

variable {start h : Heap} {fuel : Nat} {home : Home} {stack : Stack} {x y : Config}
  {ended : Option (Except Exit Value × World)} {w : World}

theorem arrive {result : Except Exit Value} (arrives : Arrives start home stack h x result w) :
    Simulates start fuel home stack h x (some (result, w)) :=
  ⟨0, x, .refl x, arrives⟩

/-- A step pays for one unit of fuel. -/
theorem step (first : x.Steps y) (more : Simulates start fuel home stack h y ended) :
    Simulates start (fuel + 1) home stack h x ended := by
  rcases ended with _ | ⟨result, w⟩
  · obtain ⟨count, z, goes, enough⟩ := more
    exact ⟨count + 1, z, .step first goes, Nat.succ_le_succ enough⟩
  · obtain ⟨count, z, goes, arrives⟩ := more
    exact ⟨count + 1, z, .step first goes, arrives⟩

theorem less (more : Simulates start (fuel + 1) home stack h x ended) :
    Simulates start fuel home stack h x ended := by
  rcases ended with _ | ⟨result, w⟩
  · obtain ⟨count, z, goes, enough⟩ := more
    exact ⟨count, z, goes, (Nat.le_succ fuel).trans enough⟩
  · exact more

theorem after {count : Nat} (goes : Config.Goes count x y)
    (more : Simulates start fuel home stack h y ended) :
    Simulates start fuel home stack h x ended := by
  rcases ended with _ | ⟨result, w⟩
  · obtain ⟨count', z, goes', enough⟩ := more
    exact ⟨count + count', z, goes.trans goes', enough.trans (Nat.le_add_left _ _)⟩
  · obtain ⟨count', z, goes', arrives⟩ := more
    exact ⟨count + count', z, goes.trans goes', arrives⟩

/-- What was done from a later heap is done from an earlier one. -/
theorem since {h' : Heap} (grown : h.Extends h')
    (more : Simulates start fuel home stack h' x ended) :
    Simulates start fuel home stack h x ended := by
  rcases ended with _ | ⟨exit | v, w⟩
  · exact more
  · obtain ⟨count, y, goes, arrives⟩ := more
    exact ⟨count, y, goes, arrives.elsewhere grown fun _ => id⟩
  · obtain ⟨count, y, goes, ⟨known, follows, later⟩⟩ := more
    exact ⟨count, _, goes, .value known follows (grown.trans later)⟩

/-- What never returns can be done at any home. -/
theorem atHome (homeless : Simulates start fuel none stack h x ended) :
    Simulates start fuel home stack h x ended := by
  rcases ended with _ | ⟨exit | v, w⟩
  · exact homeless
  · obtain ⟨count, y, goes, arrives⟩ := homeless
    exact ⟨count, y, goes, arrives.elsewhere (.refl h) nofun⟩
  · obtain ⟨count, y, goes, ⟨known, follows, grown⟩⟩ := homeless
    exact ⟨count, _, goes, .value known follows grown⟩

/-- First one thing on a stack, then another with its value. -/
theorem bind {inner : Stack} {first : Eval Value} {next : Value → Eval Value}
    (begins : Simulates start fuel home inner h x (first w))
    (goesOn : ∀ v env w', v.IsKnown start.continuations.size → w'.Follows start →
      h.Extends w'.heap → Simulates start fuel home stack h ⟨.value v, env, inner, w'⟩
        (next v (w'.forget start))) : Simulates start fuel home stack h x ((first >>= next) w) := by
  rw [Eval.bind_apply]
  revert begins
  -- an exit leaves the second part out, on the stack of the first as on any other
  rcases first w with _ | ⟨exit | v, w'⟩
  · exact id
  · rintro ⟨count, y, goes, arrives⟩
    exact ⟨count, y, goes, arrives.elsewhere (.refl h) fun _ => id⟩
  · rintro ⟨count, y, goes, arrives⟩
    cases arrives with
    | @value _ env w' known follows grown => exact .after goes (goesOn v env w' known follows grown)

/-- The body of a call returns to where the call was made, or ends there. -/
theorem catchReturn {callerEnv : Env} {body : Eval Value}
    (inside : Simulates start fuel (some (callerEnv, stack)) stack h x (body w)) :
    Simulates start fuel none stack h x (Eval.catchReturn body w) := by
  rw [Eval.catchReturn_apply]
  revert inside
  rcases body w with _ | ⟨result, w'⟩
  · exact id
  · rintro ⟨count, y, goes, arrives⟩
    cases arrives with
    | value known follows grown => exact ⟨count, _, goes, .value known follows grown⟩
    | fault fails => exact ⟨count, _, goes, .fault fails⟩
    | returned known follows grown isHome =>
      cases isHome
      exact ⟨count, _, goes, .value known follows grown⟩
    | jumped captured whole known follows steps =>
      exact ⟨count, _, goes, .jumped captured whole known follows steps⟩
    | control applies => exact ⟨count, _, goes, .control applies⟩

end Simulates

end SourceMachine

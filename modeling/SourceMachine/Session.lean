import SourceMachine.Machine.Run
import SourceMachine.Prelude.Jumps
import SourceMachine.Prelude.Lists
import SourceMachine.Program.Grammar

/-!
# Sessions

Programs are run one after the other on one machine, and each sees what those
before it declared.  The preludes are run before the first program.  They are tried
only once: when one of them fails, the next program finds only what was declared up
to there.
-/

namespace SourceMachine

/-- The programs that are run before the first one. -/
def Prelude.programs : List (Except Refusal Program) :=
  [Program.read Prelude.lists, Program.read Prelude.jumps]

namespace Machine

/-- Take up a program that was read. -/
def install (m : Machine) (read : Except Refusal Program) : Except Failure Unit × Machine :=
  match read with
  | .error refusal => (.error (.refusal refusal), m)
  | .ok p => (.ok (), m.load p)

/-- Run programs to their ends, up to the first failure. -/
def runAll (m : Machine) : List (Except Refusal Program) → Except Failure Unit × Machine
  | [] => (.ok (), m)
  | read :: rest =>
    match m.install read with
    | (.error failure, m) => (.error failure, m)
    | (.ok (), m) =>
      match m.runToEnd with
      | (.failed failure, m) => (.error failure, m)
      | (.finished _, m) | (.suspended, m) => m.runAll rest

/-- Run the preludes, if that was not tried yet. -/
def runPreludes (m : Machine) : Except Failure Unit × Machine :=
  if m.preludePending then { m with preludePending := false }.runAll Prelude.programs
  else (.ok (), m)

/-- Read a program and take it up, after the preludes.  A text that is no program
    leaves the current program in place. -/
def prepare (m : Machine) (text : String) : Except Failure Unit × Machine :=
  match m.runPreludes with
  | (.error failure, m) => (.error failure, m)
  | (.ok (), m) => m.install (Program.read text)

/-- Read a program and run it within a budget, if there is one. -/
def eval (m : Machine) (text : String) (budget : Option Nat) : Outcome × Machine :=
  match m.prepare text with
  | (.error failure, m) => (.failed failure, m)
  | (.ok (), m) => m.runWithin budget

end Machine

end SourceMachine

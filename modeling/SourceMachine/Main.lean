import Std.Time.DateTime.Timestamp
import SourceMachine.CommandLine.Report

/-!
# The command line

Reads the program, runs it, and prints its report.  The program is run in rounds,
so that what it writes is printed while it goes on and the clock moves.
-/

namespace SourceMachine.Main

/-- The time in nanoseconds. -/
def now : IO Int := do
  return (← Std.Time.Timestamp.now).toNanosecondsSinceUnixEpoch.val

/-- All that is left of a stream. -/
partial def readAll (stream : IO.FS.Stream) (bytes : ByteArray) : IO ByteArray := do
  let more ← stream.read 65536
  if more.isEmpty then return bytes else readAll stream (bytes ++ more)

/-- The bytes of an input. -/
def readBytes : Input → IO ByteArray
  | .standard => do readAll (← IO.getStdin) .empty
  | .file path => IO.FS.readBinFile path
  | .inline text => return text.toUTF8

/-- Why reading an input failed. -/
def readFailure : IO.Error → ReadFailure
  | .noFileOrDirectory .. => .missing
  | .inappropriateType .. => .directory
  | e => .other (toString e)

/-- The text of an input. -/
def readInput (input : Input) : IO (Except ReadFailure String) := do
  try
    match String.fromUTF8? (← readBytes input) with
    | some text => return .ok text
    | none => return .error .notText
  catch e => return .error (readFailure e)

/-- Print what the program wrote since the last time. -/
def flush (m : Machine) : IO Machine := do
  IO.print (Report.unlines m.world.console.lines.toList)
  (← IO.getStdout).flush
  return { m with world := { m.world with console := {}, clock := (← now) / 1000000 } }

/-- How many transitions a round has. -/
def roundLength : Nat := 100000

/-- Run in rounds, within a budget, if there is one. -/
partial def runRounds (m : Machine) (budget : Option Nat) : IO (Outcome × Machine) := do
  let length := min roundLength (budget.getD roundLength)
  let (outcome, m) := m.run length
  let m ← flush m
  match outcome, budget.map (· - length) with
  | .suspended, some 0 => return (outcome, m)
  | .suspended, left => runRounds m left
  | _, _ => return (outcome, m)

/-- Print a report. -/
def printReport (r : Report) : IO UInt32 := do
  IO.print r.out
  IO.eprint r.err
  return r.code.toUInt32

/-- Run the text of a program and print its report. -/
def execute (o : Options) (text : String) : IO UInt32 := do
  let time ← now
  let world : World := { clock := time / 1000000, random := .ofSeed time.toNat.toUInt64 }
  let (outcome, m) ← match (o.machine world).prepare text with
    | (.error failure, m) => pure (Outcome.failed failure, m)
    | (.ok (), m) => runRounds m o.maxSteps
  printReport (.ofOutcome o.json outcome m)

end SourceMachine.Main

open SourceMachine in
/-- Run a program given by the arguments. -/
def main (args : List String) : IO UInt32 := do
  match Options.read {} args with
  | .error misuse => Main.printReport (.ofError misuse.message)
  | .ok o =>
    match ← Main.readInput o.input with
    | .error failure => Main.printReport (.ofError (o.input.message failure))
    | .ok text => Main.execute o text

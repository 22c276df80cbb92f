import SourceMachine.CommandLine.Options
import SourceMachine.Session
import SourceMachine.Value.Json

/-!
# Reports of the command line

What is printed at the end: the value of the program, or why there is none, as text
or as a JSON object.  Only failures have an exit code other than zero.
-/

namespace SourceMachine

/-- Why the text of a program could not be read. -/
inductive ReadFailure where
  | missing
  | directory
  | notText
  | other (text : String)
deriving DecidableEq, Repr

/-- A failure to read in words. -/
def ReadFailure.message : ReadFailure → String
  | .missing => "No such file or directory (os error 2)"
  | .directory => "Is a directory (os error 21)"
  | .notText => "stream did not contain valid UTF-8"
  | .other text => text

/-- The failure to read an input in words. -/
def Input.message (input : Input) (failure : ReadFailure) : String :=
  match input with
  | .file path => "Cannot read " ++ path ++ ": " ++ failure.message
  | .standard | .inline _ => failure.message

/-- What the program leaves behind. -/
structure Report where
  code : Nat := 0
  out : String := ""
  err : String := ""
deriving DecidableEq, Repr

namespace Report

/-- The report of a program that could not be started. -/
def ofError (message : String) : Report :=
  { code := 1, err := "Error: " ++ message ++ "\n" }

/-- Lines of text. -/
def unlines (lines : List String) : String :=
  String.join (lines.map (· ++ "\n"))

/-- The JSON object of some fields, whose values are JSON texts. -/
def jsonObject (fields : Named String) : String :=
  "\x7b" ++ ",".intercalate (fields.map fun (key, json) => jsonQuoted key ++ ":" ++ json) ++ "\x7d"

/-- The JSON array of some texts. -/
def jsonTexts (texts : List String) : String :=
  "[" ++ ",".intercalate (texts.map jsonQuoted) ++ "]"

/-- The messages of a failure.  Only faults are recorded, and a fault is reported
    with those before it. -/
def failureMessages (failure : Failure) (m : Machine) : List String :=
  match failure with
  | .refusal _ | .overflow _ => [failure.message]
  | .fault _ => m.faults.toList.map Fault.message

/-- An outcome as JSON.  The fields are in alphabetical order. -/
def outcomeJson (outcome : Outcome) (m : Machine) : String :=
  match outcome with
  | .finished v =>
    jsonObject [("display", jsonQuoted (v.text m.world.heap)), ("status", jsonQuoted "finished"),
      ("steps", toString m.steps), ("value", (v.json m.world.heap).toOption.getD "null")]
  | .failed failure =>
    jsonObject [("errors", jsonTexts (failureMessages failure m)), ("status", jsonQuoted "error")]
  | .suspended => jsonObject [("status", jsonQuoted "suspended"), ("steps", toString m.steps)]

/-- The exit code of an outcome. -/
def exitCode : Outcome → Nat
  | .failed _ => 1
  | .finished _ | .suspended => 0

/-- The end of a report. -/
def ofOutcome (json : Bool) (outcome : Outcome) (m : Machine) : Report :=
  let code := exitCode outcome
  if json then { code, out := outcomeJson outcome m ++ "\n" }
  else
    match outcome with
    | .finished v => { code, out := v.text m.world.heap ++ "\n" }
    | .failed failure => { code, err := failure.message ++ "\n" }
    | .suspended => { code, err := "Suspended after " ++ toString m.steps ++ " steps\n" }

end Report

/-- The machine that options ask for. -/
def Options.machine (o : Options) (world : World) : Machine :=
  Machine.new o.settings Table.standard world

/-- Run the text of a program.  What it writes comes before the outcome. -/
def Options.execute (o : Options) (text : String) (world : World) : Report :=
  let (outcome, m) := (o.machine world).eval text o.maxSteps
  let report := Report.ofOutcome o.json outcome m
  { report with out := Report.unlines m.world.console.lines.toList ++ report.out }

/-- The whole command line, when every input can be read at once. -/
def commandLine (args : List String) (readInput : Input → Except ReadFailure String)
    (world : World) : Report :=
  match Options.read {} args with
  | .error misuse => .ofError misuse.message
  | .ok o =>
    match readInput o.input with
    | .error failure => .ofError (o.input.message failure)
    | .ok text => o.execute text world

end SourceMachine

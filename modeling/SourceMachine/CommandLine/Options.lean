import SourceMachine.Machine.Basic
import SourceMachine.Number.Reading

/-!
# Options of the command line

Arguments are read from left to right.  A later choice replaces an earlier one, and
the first argument that makes no sense ends the reading.
-/

namespace SourceMachine

/-- Where the text of the program comes from. -/
inductive Input where
  | standard
  | file (path : String)
  | inline (text : String)
deriving DecidableEq, Repr

/-- What the arguments choose. -/
structure Options where
  input : Input := .standard
  settings : Settings := {}
  maxSteps : Option Nat := none
  json : Bool := false

/-- Why arguments make no sense. -/
inductive Misuse where
  | valueMissing (option : String)
  | badValue (option : String)
  | programMissing
  /-- The arguments ask how to use the program. -/
  | help
  | unknown (option : String)
deriving DecidableEq, Repr

/-- How to use the program. -/
def usage : String :=
  "Usage: sourcerun [--max-depth <n>] [--max-steps <n>] [--no-prelude] [--json] [FILE | -e CODE]"

/-- A misuse in words. -/
def Misuse.message : Misuse → String
  | .valueMissing option => option ++ " requires a value"
  | .badValue option => option ++ " must be a positive integer"
  | .programMissing => "-e requires a program"
  | .help => usage
  | .unknown option => "Unknown option: " ++ option ++ "\n" ++ usage

/-- The number that digits spell, if it fits into 64 bits. -/
def wordOfDigits? (digits : List Char) : Option Nat :=
  if digits = [] ∨ !digits.all (Number.isDigit 10) then none
  else
    let n := Number.ofDigits 10 digits
    if n < Number.twoPow 64 then some n else none

/-- The number that the value of an option spells.  A plus sign is allowed. -/
def word? (text : String) : Option Nat :=
  match text.toList with
  | '+' :: digits => wordOfDigits? digits
  | digits => wordOfDigits? digits

/-- The value of an option that counts something. -/
def countValue (option value : String) : Except Misuse Nat :=
  match word? value with
  | some n => .ok n
  | none => .error (.badValue option)

/-- Whether an argument is an option. -/
def isOption (arg : String) : Bool :=
  arg.toList.head? = some '-'

/-- The choices of arguments, on top of earlier ones. -/
def Options.read (o : Options) : List String → Except Misuse Options
  | [] => .ok o
  | "--max-depth" :: [] => .error (.valueMissing "--max-depth")
  | "--max-depth" :: value :: rest =>
    match countValue "--max-depth" value with
    | .ok n => { o with settings := { o.settings with maxDepth := n } }.read rest
    | .error misuse => .error misuse
  | "--max-steps" :: [] => .error (.valueMissing "--max-steps")
  | "--max-steps" :: value :: rest =>
    match countValue "--max-steps" value with
    | .ok n => { o with maxSteps := some n }.read rest
    | .error misuse => .error misuse
  | "--no-prelude" :: rest => { o with settings := { o.settings with prelude := false } }.read rest
  | "--json" :: rest => { o with json := true }.read rest
  | "-e" :: [] => .error .programMissing
  | "-e" :: text :: rest => { o with input := .inline text }.read rest
  | "-h" :: _ => .error .help
  | "--help" :: _ => .error .help
  | arg :: rest =>
    if isOption arg then .error (.unknown arg) else { o with input := .file arg }.read rest

end SourceMachine

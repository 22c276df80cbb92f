import SourceMachine.Program.Basic
import SourceMachine.Token.Basic

/-!
# Refusals

A text that is no program is refused, with a cause and a place.  `Refusal.message`
is the only place where the causes are put into words.
-/

namespace SourceMachine

/-- What a token was expected to be. -/
inductive Expectation where
  | kind (kind : Kind)
  | semicolon
  | closingBrace
  | closingParen
  | expression
  | identifier
  | propertyName

/-- How a message names what was expected. -/
def Expectation.text : Expectation → String
  | .kind k => k.describe
  | .semicolon => "';'"
  | .closingBrace => "'\x7d'"
  | .closingParen => "')'"
  | .expression => "expression"
  | .identifier => "identifier"
  | .propertyName => "property name"

/-- Why a text is refused. -/
inductive Refusal.Cause where
  | unexpected (found : Kind) (expected : Expectation)
  | varDeclaration
  | missingInitializer (kind : DeclarationKind)
  | severalDeclarators
  | unnamedFunction
  | duplicateParam (name : String)
  | missingHandler
  | invalidTarget
  | unterminatedString
  | tooDeep

/-- A refused text: why, and the line and column of the token that shows it. -/
structure Refusal where
  cause : Refusal.Cause
  line : UInt32
  column : UInt32

/-- A cause in words. -/
def Refusal.Cause.text : Refusal.Cause → String
  | .unexpected found expected => "Unexpected " ++ found.describe ++ ", expected " ++ expected.text
  | .varDeclaration => "Variable declaration using \"var\" is not allowed"
  | .missingInitializer kind => "Missing initializer in " ++ kind.text ++ " declaration"
  | .severalDeclarators => "Only one variable may be declared per statement"
  | .unnamedFunction => "Function declarations require a name"
  | .duplicateParam name => "Duplicate parameter name \"" ++ name ++ "\""
  | .missingHandler => "Missing catch or finally after try"
  | .invalidTarget => "Invalid assignment target"
  | .unterminatedString => "Unterminated string literal"
  | .tooDeep => "Maximum nesting depth exceeded"

/-- A refusal in words. -/
def Refusal.message (r : Refusal) : String :=
  "SyntaxError: " ++ r.cause.text ++ " at " ++ toString r.line ++ ":" ++ toString r.column

end SourceMachine

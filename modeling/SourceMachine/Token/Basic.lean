import SourceMachine.Number.Layout
import SourceMachine.Text.Character
import SourceMachine.Text.Position

/-!
# Tokens

The words and marks of the language, with their spellings and with the names
that messages use for them.
-/

namespace SourceMachine

/-! ## Reserved words -/

/-- The reserved words, those of unsupported constructs included. -/
inductive Keyword where
  | trueWord | falseWord | nullWord | letWord | constWord | varWord | functionWord | returnWord
  | ifWord | elseWord | forWord | whileWord | doWord | breakWord | continueWord | tryWord
  | catchWord | finallyWord | throwWord | newWord | thisWord | classWord | switchWord
  | importWord | exportWord | typeofWord | debuggerWord
deriving DecidableEq, Repr

/-- How a reserved word is written. -/
def Keyword.text : Keyword → String
  | .trueWord => "true"
  | .falseWord => "false"
  | .nullWord => "null"
  | .letWord => "let"
  | .constWord => "const"
  | .varWord => "var"
  | .functionWord => "function"
  | .returnWord => "return"
  | .ifWord => "if"
  | .elseWord => "else"
  | .forWord => "for"
  | .whileWord => "while"
  | .doWord => "do"
  | .breakWord => "break"
  | .continueWord => "continue"
  | .tryWord => "try"
  | .catchWord => "catch"
  | .finallyWord => "finally"
  | .throwWord => "throw"
  | .newWord => "new"
  | .thisWord => "this"
  | .classWord => "class"
  | .switchWord => "switch"
  | .importWord => "import"
  | .exportWord => "export"
  | .typeofWord => "typeof"
  | .debuggerWord => "debugger"

/-- Every reserved word. -/
def Keyword.all : List Keyword :=
  [.trueWord, .falseWord, .nullWord, .letWord, .constWord, .varWord, .functionWord, .returnWord,
  .ifWord, .elseWord, .forWord, .whileWord, .doWord, .breakWord, .continueWord, .tryWord,
  .catchWord, .finallyWord, .throwWord, .newWord, .thisWord, .classWord, .switchWord,
  .importWord, .exportWord, .typeofWord, .debuggerWord]

/-- The reserved word that a name spells. -/
def Keyword.ofText? (s : String) : Option Keyword :=
  Keyword.all.find? (·.text = s)

/-- What messages call a reserved word. -/
def Keyword.label (k : Keyword) : String :=
  k.text.capitalize

/-! ## Marks -/

/-- Operators and punctuation. -/
inductive Mark where
  | plus | minus | star | slash | percent | plusPlus | minusMinus | eq | eqEq | eqEqEq | bangEq
  | bangEqEq | lt | ltEq | gt | gtEq | ampAmp | pipePipe | bang | question | questionQuestion
  | plusEq | minusEq | starEq | slashEq | percentEq | lParen | rParen | lBrace | rBrace
  | lBracket | rBracket | dot | dotDotDot | comma | colon | semicolon | arrow
deriving DecidableEq, Repr

/-- How a mark is written. -/
def Mark.text : Mark → String
  | .plus => "+"
  | .minus => "-"
  | .star => "*"
  | .slash => "/"
  | .percent => "%"
  | .plusPlus => "++"
  | .minusMinus => "--"
  | .eq => "="
  | .eqEq => "=="
  | .eqEqEq => "==="
  | .bangEq => "!="
  | .bangEqEq => "!=="
  | .lt => "<"
  | .ltEq => "<="
  | .gt => ">"
  | .gtEq => ">="
  | .ampAmp => "&&"
  | .pipePipe => "||"
  | .bang => "!"
  | .question => "?"
  | .questionQuestion => "??"
  | .plusEq => "+="
  | .minusEq => "-="
  | .starEq => "*="
  | .slashEq => "/="
  | .percentEq => "%="
  | .lParen => "("
  | .rParen => ")"
  | .lBrace => "\x7b"
  | .rBrace => "\x7d"
  | .lBracket => "["
  | .rBracket => "]"
  | .dot => "."
  | .dotDotDot => "..."
  | .comma => ","
  | .colon => ":"
  | .semicolon => ";"
  | .arrow => "=>"

/-- What messages call a mark. -/
def Mark.label : Mark → String
  | .plus => "Plus"
  | .minus => "Minus"
  | .star => "Star"
  | .slash => "Slash"
  | .percent => "Percent"
  | .plusPlus => "PlusPlus"
  | .minusMinus => "MinusMinus"
  | .eq => "Eq"
  | .eqEq => "EqEq"
  | .eqEqEq => "EqEqEq"
  | .bangEq => "BangEq"
  | .bangEqEq => "BangEqEq"
  | .lt => "Lt"
  | .ltEq => "LtEq"
  | .gt => "Gt"
  | .gtEq => "GtEq"
  | .ampAmp => "AmpAmp"
  | .pipePipe => "PipePipe"
  | .bang => "Bang"
  | .question => "Question"
  | .questionQuestion => "QuestionQuestion"
  | .plusEq => "PlusEq"
  | .minusEq => "MinusEq"
  | .starEq => "StarEq"
  | .slashEq => "SlashEq"
  | .percentEq => "PercentEq"
  | .lParen => "LParen"
  | .rParen => "RParen"
  | .lBrace => "LBrace"
  | .rBrace => "RBrace"
  | .lBracket => "LBracket"
  | .rBracket => "RBracket"
  | .dot => "Dot"
  | .dotDotDot => "DotDotDot"
  | .comma => "Comma"
  | .colon => "Colon"
  | .semicolon => "Semicolon"
  | .arrow => "Arrow"

/-- Every mark, longer ones first. -/
def Mark.all : List Mark :=
  [.eqEqEq, .bangEqEq, .dotDotDot, .plusPlus, .minusMinus, .eqEq, .bangEq, .ltEq, .gtEq,
  .ampAmp, .pipePipe, .questionQuestion, .plusEq, .minusEq, .starEq, .slashEq, .percentEq,
  .arrow, .plus, .minus, .star, .slash, .percent, .eq, .lt, .gt, .bang, .question, .lParen,
  .rParen, .lBrace, .rBrace, .lBracket, .rBracket, .dot, .comma, .colon, .semicolon]

/-- The marks with their characters, longer ones first. -/
def Mark.spellings : List (List Char × Mark) :=
  Mark.all.map fun m => (m.text.toList, m)

/-- The longest mark that a text starts with, and its length. -/
def Mark.longest? (cs : List Char) : Option (Mark × Nat) :=
  (Mark.spellings.find? (·.1.isPrefixOf cs)).map fun (spelling, m) => (m, spelling.length)

/-! ## Kinds of tokens -/

/-- What a token is. -/
inductive Kind where
  | number (value : Float)
  | string (text : String)
  | template (text : String)
  | identifier (name : String)
  | keyword (word : Keyword)
  | mark (mark : Mark)
  | eof
  /-- A character that starts no token, or the first character of a broken
      literal. -/
  | invalid (c : Char)
deriving DecidableEq

/-- What messages call a kind of token. -/
def Kind.label : Kind → String
  | .number _ => "Number"
  | .string _ => "String"
  | .template _ => "Template"
  | .identifier _ => "Identifier"
  | .keyword k => k.label
  | .mark m => m.label
  | .eof => "Eof"
  | .invalid _ => "Invalid"

/-- A kind of token in a message, with what it holds in parentheses.  Texts
    stand between quotes as they are. -/
def Kind.describe (k : Kind) : String :=
  match k with
  | .number x => "Number(" ++ Number.Layout.token.write x ++ ")"
  | .string s => "String(\"" ++ s ++ "\")"
  | .template s => "Template(\"" ++ s ++ "\")"
  | .identifier s => "Identifier(\"" ++ s ++ "\")"
  | .invalid c => "Invalid(" ++ describeCharacter c ++ ")"
  | .keyword _ | .mark _ | .eof => k.label

/-- A token: what it is, where it stands, and whether a line ended between the
    token before it and this one. -/
structure Token where
  kind : Kind
  span : Span
  newlineBefore : Bool
deriving DecidableEq

end SourceMachine

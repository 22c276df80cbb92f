import SourceMachine.Number.Shortest

/-!
# Layouts: how a number is written

A number is written with its shortest digits, but where it is written decides
on the rest: whether large and small numbers take an exponent, whether a whole
number shows a decimal point, and what stands for the numbers that have no
digits.  Each place has its `Layout`.
-/

namespace SourceMachine.Number

/-- The choices of one place where numbers are written. -/
structure Layout where
  /-- Whether a number is written without an exponent, by the exponent of its
      first digit. -/
  plain : Int → Bool
  /-- What follows the digits of a whole number. -/
  wholeEnd : String
  /-- What stands before an exponent that is not negative. -/
  exponentSign : String
  /-- Which of two equally near shortest decimals is taken. -/
  tie : Tie
  zero : String
  negativeZero : String
  notANumber : String
  infinity : String
  negativeInfinity : String

/-- Digits with a decimal point after the first `point` of them, filled up with
    zeros on either side. -/
def positional (wholeEnd : String) (digits : List Char) (point : Int) : String :=
  let count : Int := digits.length
  if count ≤ point then
    String.ofList (digits ++ List.replicate (point - count).toNat '0') ++ wholeEnd
  else if 0 < point then
    String.ofList (digits.take point.toNat ++ '.' :: digits.drop point.toNat)
  else
    String.ofList ('0' :: '.' :: List.replicate (-point).toNat '0' ++ digits)

/-- Digits with one digit before the decimal point, and an exponent. -/
def scientific (exponentSign : String) (digits : List Char) (exponent : Int) : String :=
  let fraction := match digits.drop 1 with
    | [] => []
    | rest => '.' :: rest
  let sign := if exponent < 0 then "-" else exponentSign
  String.ofList (digits.take 1 ++ fraction) ++ "e" ++ sign ++ toString exponent.natAbs

/-- The text of a positive decimal. -/
def Layout.decimal (l : Layout) (d : Decimal) : String :=
  let digits := Nat.toDigits 10 d.digits
  let point : Int := digits.length + d.exponent
  if l.plain (point - 1) then positional l.wholeEnd digits point
  else scientific l.exponentSign digits (point - 1)

/-- The text of a number. -/
def Layout.write (l : Layout) (x : Float) : String :=
  match decode x with
  | .notANumber => l.notANumber
  | .infinite negative => if negative then l.negativeInfinity else l.infinity
  | .finite b =>
    if b.mantissa = 0 then
      if b.negative then l.negativeZero else l.zero
    else
      (if b.negative then "-" else "") ++ l.decimal (shortest l.tie b.mantissa b.exponent)

/-- Numbers as values show them: never an exponent, and both zeros alike. -/
def Layout.display : Layout where
  plain _ := true
  wholeEnd := ""
  exponentSign := ""
  tie := .up
  zero := "0"
  negativeZero := "0"
  notANumber := "NaN"
  infinity := "Infinity"
  negativeInfinity := "-Infinity"

/-- Numbers as the keys of an object literal. -/
def Layout.key : Layout where
  plain _ := true
  wholeEnd := ""
  exponentSign := ""
  tie := .up
  zero := "0"
  negativeZero := "-0"
  notANumber := "NaN"
  infinity := "inf"
  negativeInfinity := "-inf"

/-- Numbers in JSON text: plain from `10 ^ -5` up to below `10 ^ 16`, and `null`
    for what JSON cannot say. -/
def Layout.json : Layout where
  plain e := -5 ≤ e && e < 16
  wholeEnd := ".0"
  exponentSign := "+"
  tie := .toEven
  zero := "0.0"
  negativeZero := "-0.0"
  notANumber := "null"
  infinity := "null"
  negativeInfinity := "null"

/-- Numbers in messages about tokens: plain from `10 ^ -4` up to below
    `10 ^ 16`. -/
def Layout.token : Layout where
  plain e := -4 ≤ e && e < 16
  wholeEnd := ".0"
  exponentSign := ""
  tie := .up
  zero := "0.0"
  negativeZero := "-0.0"
  notANumber := "NaN"
  infinity := "inf"
  negativeInfinity := "-inf"

end SourceMachine.Number

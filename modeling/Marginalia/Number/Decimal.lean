import Marginalia.Text.Digit

/-!
# Decimal numerals

A numeral is a sign, a coefficient and a power of ten. This file reads the written form of number
literals: digits with at most one point among them, and an optional exponent. Digits of every
script count.
-/

namespace Marginalia.Number

/-- Two to a power. -/
def twoTo (n : Nat) : Nat := Nat.pow 2 n

/-- Ten to a power. -/
def tenTo (n : Nat) : Nat := Nat.pow 10 n

/-- The number `± coefficient · 10 ^ exponent`. -/
structure Decimal where
  negative : Bool
  coefficient : Nat
  exponent : Int
deriving DecidableEq, Repr

/-- Splits a sign off a numeral; `true` for a minus. -/
def splitSign : List Char → Bool × List Char
  | '-' :: rest => (true, rest)
  | '+' :: rest => (false, rest)
  | rest => (false, rest)

/-- A signed whole number. -/
def signed (negative : Bool) (n : Nat) : Int := if negative then -(n : Int) else n

/-- Reads a whole number with an optional sign. -/
def readInt (text : List Char) : Int :=
  let (negative, digits) := splitSign text
  signed negative (Text.ofDigits digits)

/-- Whether a character marks the exponent. -/
def isExponentMark (c : Char) : Bool := c = 'e' || c = 'E'

/-- Reads a numeral: sign, digits, point, digits, exponent. -/
def Decimal.read (text : List Char) : Decimal :=
  let (negative, body) := splitSign text
  let whole := body.takeWhile Text.isDigit
  let afterWhole := body.dropWhile Text.isDigit
  let afterPoint := if afterWhole.head? = some '.' then afterWhole.tail else []
  let fraction := afterPoint.takeWhile Text.isDigit
  let mark := body.dropWhile (fun c => !isExponentMark c)
  let power := readInt mark.tail
  ⟨negative, Text.ofDigits (whole ++ fraction), power - fraction.length⟩

end Marginalia.Number

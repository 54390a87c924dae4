import Marginalia.Number.Decimal
import Marginalia.Text.Blank

/-!
# Whole numbers in text

Where a whole number is wanted and a text is given, the text is read leniently.

* a numeral is a minus sign, if any, and digits without a zero in front of others. It has at most
  `maxDigits` characters; one that starts with more is too long, whatever follows it
  (`readNumeral`);
* a text that is no numeral is tidied up: white space around it goes, and so do a plus sign, zeros
  in front, single underscores between digits, and a point with nothing but zeros behind it
  (`tidy?`). Among the zeros in front there can be any number of underscores;
* the tidied text has to be a numeral (`wholeOfText`).
-/

namespace Marginalia.Number

/-! ## 1. Numerals -/

/-- The greatest number of characters that a whole number is read from. -/
def maxDigits : Nat := 4300

/-- Why a text is not read as a whole number. -/
inductive WholeFault where
  | unreadable
  | tooLong
deriving DecidableEq, Repr

/-- A digit other than zero. -/
def isLeadingDigit (c : Char) : Bool := Text.isAsciiDigit c && c != '0'

/-- Splits off a minus sign. -/
def splitMinus : List Char → Bool × List Char
  | '-' :: rest => (true, rest)
  | rest => (false, rest)

/-- How many characters a sign takes. -/
def signWidth (negative : Bool) : Nat := if negative then 1 else 0

/-- Whether digits have no zero in front of others. -/
def isNumeral : List Char → Bool
  | [] => false
  | ['0'] => true
  | c :: rest => isLeadingDigit c && rest.all Text.isAsciiDigit

/-- Whether a text starts with more digits than are read. -/
def startsTooLong (negative : Bool) (body : List Char) : Bool :=
  body.head?.any isLeadingDigit &&
    maxDigits < signWidth negative + (body.takeWhile Text.isAsciiDigit).length

/-- Reads a numeral. -/
def readNumeral (text : List Char) : Except WholeFault Int :=
  let (negative, body) := splitMinus text
  if startsTooLong negative body then .error .tooLong
  else if isNumeral body then .ok (signed negative (Text.ofDigits body))
  else .error .unreadable

/-! ## 2. Lenient reading -/

/-- Drops zeros and underscores behind a zero. A zero stays if no other digit comes. -/
def dropMoreZeros (last : Char) : List Char → Option (List Char)
  | [] => some [last]
  | c :: rest =>
    if c = '0' || c = '_' then dropMoreZeros c rest
    else if isLeadingDigit c then some (c :: rest)
    else if c = '.' then some (last :: c :: rest)
    else none

/-- Drops the zeros in front of digits; none if the text starts with no digit. -/
def dropLeadingZeros : List Char → Option (List Char)
  | [] => none
  | c :: rest =>
    if c = '0' then dropMoreZeros c rest
    else if isLeadingDigit c then some (c :: rest)
    else none

/-- Drops a point with zeros after it, if that is how the text goes on from its first point. -/
def dropPointZeros (body : List Char) : List Char :=
  match body.dropWhile (· != '.') with
  | '.' :: z :: zeros => if (z :: zeros).all (· = '0') then body.takeWhile (· != '.') else body
  | _ => body

/-- Drops the underscores, if each of them stands between two other characters. -/
def dropUnderscores (body : List Char) : List Char :=
  let groups := Text.splitAt '_' body
  if groups.all (!·.isEmpty) then groups.flatten else body

/-- Drops a plus sign; none if a minus sign follows it. -/
def dropPlus : List Char → Option (List Char)
  | '+' :: '-' :: _ => none
  | '+' :: rest => some rest
  | rest => some rest

/-- The numeral that a text is meant to be, if it starts like one. -/
def tidy? (text : List Char) : Option (List Char) :=
  (dropPlus (Text.dropRight Text.isSpace (Text.dropLeft Text.isSpace text))).bind fun plain =>
    let (negative, body) := splitMinus plain
    (dropLeadingZeros body).map fun digits =>
      (if negative then ['-'] else []) ++ dropUnderscores (dropPointZeros digits)

/-- Reads a text as a whole number. -/
def wholeOfText (text : String) : Except WholeFault Int :=
  match readNumeral text.toList with
  | .error .unreadable => match tidy? text.toList with
    | some numeral => readNumeral numeral
    | none => .error .unreadable
  | outcome => outcome

end Marginalia.Number

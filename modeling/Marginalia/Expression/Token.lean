import Marginalia.Note.Fault
import Marginalia.Text.Word

/-!
# Tokens of annotation expressions

An annotation expression is written with nine signs, names, strings and numbers. This file cuts a
text into them:

* between tokens, spaces, tabs, form feeds, carriage returns and line feeds are skipped;
* no two kinds of tokens start with the same character, so the longest lexeme at a place is the
  only one (`lexeme?`);
* a string runs to its closing quote, a doubled quote inside it being part of it. If that leaves
  no closing quote, the last doubled quote is taken for the end instead;
* cutting stops at a character that starts no token (`Ending.stuck`).
-/

namespace Marginalia.Expression

/-! ## 1. Lexemes -/

/-- The longest continuation of a name: characters of identifiers, and separators that an
    identifier follows. -/
def nameTail : List Char → List Char
  | [] => []
  | '\\' :: c :: rest => if Text.isIdentStart c then '\\' :: c :: nameTail rest else []
  | c :: rest => if Text.isIdentPart c then c :: nameTail rest else []

/-- A row of identifiers with separators between them. -/
def identifiers? : List Char → Option (List Char)
  | c :: rest => if Text.isIdentStart c then some (c :: nameTail rest) else none
  | [] => none

/-- A name with an optional dollar sign in front. -/
def dollarName? : List Char → Option (List Char)
  | '$' :: rest => (identifiers? rest).map ('$' :: ·)
  | cs => identifiers? cs

/-- A name with an optional separator in front. -/
def name? : List Char → Option (List Char)
  | '\\' :: rest => (dollarName? rest).map ('\\' :: ·)
  | cs => dollarName? cs

/-- The rest of a string after its opening quote, up to and including its closing one. -/
def stringTail? : List Char → Option (List Char)
  | [] => none
  | '"' :: '"' :: rest =>
    match stringTail? rest with
    | some tail => some ('"' :: '"' :: tail)
    | none => some ['"']
  | c :: rest => if c = '"' then some ['"'] else (stringTail? rest).map (c :: ·)

/-- The digits in front. -/
def digits (cs : List Char) : List Char := cs.takeWhile Text.isDigit

/-- The digits of a number before its exponent. -/
def mantissa? (cs : List Char) : Option (List Char) :=
  match digits cs, cs.dropWhile Text.isDigit with
  | [], '.' :: rest => if (digits rest).isEmpty then none else some ('.' :: digits rest)
  | [], _ => none
  | whole, '.' :: rest => some (whole ++ '.' :: digits rest)
  | whole, _ => some whole

/-- The exponent in front, empty if there is none. -/
def exponent : List Char → List Char
  | mark :: sign :: rest =>
    if Number.isExponentMark mark then
      if sign = '-' || sign = '+' then
        if (digits rest).isEmpty then [] else mark :: sign :: digits rest
      else if (digits (sign :: rest)).isEmpty then [] else mark :: digits (sign :: rest)
    else []
  | _ => []

/-- A number without a sign. -/
def unsigned? (cs : List Char) : Option (List Char) :=
  (mantissa? cs).map fun m => m ++ exponent (cs.drop m.length)

/-- A number. -/
def number? : List Char → Option (List Char)
  | '-' :: rest => (unsigned? rest).map ('-' :: ·)
  | cs => unsigned? cs

/-- The sign that a character is. -/
def sign? : Char → Option Terminal
  | '@' => some .at
  | '(' => some .lpar
  | ')' => some .rpar
  | ',' => some .comma
  | '=' => some .equal
  | '\x7b' => some .lbrace
  | '\x7d' => some .rbrace
  | ':' => some .colon
  | _ => none

/-- The lexeme in front of a text. -/
def lexeme? : List Char → Option (Terminal × List Char)
  | [] => none
  | c :: rest =>
    match sign? c with
    | some terminal => some (terminal, [c])
    | none =>
      if c = '"' then (stringTail? rest).map fun tail => (.string, '"' :: tail)
      else if c = '-' || c = '.' || Text.isDigit c then
        (number? (c :: rest)).map fun text => (.number, text)
      else (name? (c :: rest)).map fun text => (.name, text)

/-! ## 2. The tokens of a text -/

/-- A token: its terminal, its text and where it starts. -/
structure Token where
  terminal : Terminal
  text : String
  place : Position
deriving DecidableEq, Repr

/-- How the tokens of a text end. -/
inductive Ending where
  /-- At the end of the text. -/
  | complete
  /-- At a character that starts no token. -/
  | stuck (c : Char) (place : Position)
deriving DecidableEq, Repr

/-- What is skipped between tokens. -/
def isSkipped (c : Char) : Bool :=
  c = ' ' || c = '\t' || c = '\x0c' || c = '\r' || c = '\n'

/-- The tokens of a text whose first character stands at `place`; the first `inside` characters
    belong to a token that has been cut already. -/
def tokensFrom (inside : Nat) (place : Position) : List Char → List Token × Ending
  | [] => ([], .complete)
  | c :: rest =>
    match inside with
    | more + 1 => tokensFrom more (place.after c) rest
    | 0 =>
      if isSkipped c then tokensFrom 0 (place.after c) rest
      else match lexeme? (c :: rest) with
        | none => ([], .stuck c place)
        | some (terminal, text) =>
          let (tokens, ending) := tokensFrom (text.length - 1) (place.after c) rest
          (⟨terminal, String.ofList text, place⟩ :: tokens, ending)

/-- The tokens of a text. -/
def tokens (text : List Char) : List Token × Ending := tokensFrom 0 .start text

end Marginalia.Expression

import Marginalia.Text.Digit
import Marginalia.Text.Word

/-!
# Literals

The arguments of an action are written as a literal: a number, quoted text, one of a few constants,
or a tuple, a set or a map of literals. Nothing is done with its value, so all there is to know is
whether a text is a literal (`isLiteral`).

* a number may have a sign; a real number and an imaginary one can be added up. Digits may have
  single underscores between them, and a whole number in base ten has no zeros in front;
* quoted texts side by side are one text, and so it is with quoted bytes;
* sets and maps cannot be members of a set or keys of a map.
-/

namespace Marginalia.Console

/-! ## 1. Numbers -/

/-- Digits that satisfy `p`, with single underscores between them. -/
def areDigits (p : Char → Bool) : List Char → Bool
  | [] => false
  | [c] => p c
  | c :: '_' :: rest => p c && areDigits p rest
  | c :: rest => p c && areDigits p rest

/-- The digits of bases up to sixteen. -/
def isDigitOf (base : Nat) (c : Char) : Bool :=
  let value := if Text.isAsciiDigit c then c.toNat - 0x30 else c.toLower.toNat - 0x61 + 10
  (Text.isAsciiDigit c || Text.isAsciiLetter c) && value < base

/-- Whether a text is a number in a base of its own, given what stands behind the zero. -/
def isBasedNumber : List Char → Bool
  | mark :: digits =>
    let base := match mark.toLower with
      | 'x' => 16
      | 'o' => 8
      | 'b' => 2
      | _ => 0
    areDigits (isDigitOf base) (if digits.head? = some '_' then digits.tail else digits)
  | [] => false

/-- Whether a text is empty or consists of digits. -/
def areMaybeDigits (text : List Char) : Bool := text.isEmpty || areDigits Text.isAsciiDigit text

/-- Whether a text is an exponent: nothing, or digits behind a mark and a sign. -/
def isExponent : List Char → Bool
  | [] => true
  | _ :: '+' :: digits => areDigits Text.isAsciiDigit digits
  | _ :: '-' :: digits => areDigits Text.isAsciiDigit digits
  | _ :: digits => areDigits Text.isAsciiDigit digits

/-- Whether a character marks an exponent. -/
def marksExponent (c : Char) : Bool := c = 'e' || c = 'E'

/-- Whether a text is a number with a point, an exponent or both, or digits alone. -/
def isPointNumber (text : List Char) : Bool :=
  let mantissa := text.takeWhile (!marksExponent ·)
  let whole := mantissa.takeWhile (· != '.')
  let fraction := (mantissa.dropWhile (· != '.')).drop 1
  areMaybeDigits whole && areMaybeDigits fraction && !(whole.isEmpty && fraction.isEmpty) &&
    isExponent (text.dropWhile (!marksExponent ·))

/-- Whether a text is a whole number: nothing but zeros, or without zeros in front. -/
def isWholeNumber (text : List Char) : Bool :=
  areDigits Text.isAsciiDigit text &&
    (text.head? != some '0' || text.all fun c => c = '0' || c = '_')

/-- Whether a text starts with a zero and the mark of a base. -/
def hasBase (text : List Char) : Bool :=
  text.head? = some '0' && text.tail.head?.any fun c => Text.isAsciiLetter c && !marksExponent c

/-- Whether a text is a real number without a sign. -/
def isRealNumber (text : List Char) : Bool :=
  if hasBase text then isBasedNumber text.tail
  else isWholeNumber text || (isPointNumber text && text.any fun c => c = '.' || marksExponent c)

/-- The characters that a number goes on with. A sign belongs to it if it follows the mark of an
    exponent, which a number in a base of its own does not have. -/
def numberFrom (based : Bool) (previous : Char) : List Char → List Char
  | [] => []
  | c :: rest =>
    if Text.isIdentPart c || c = '.' || (!based && marksExponent previous && (c = '+' || c = '-'))
    then c :: numberFrom based c rest
    else []

/-- The number at the front of a text, with whatever runs into it. -/
def numberLexeme (text : List Char) : List Char := numberFrom (hasBase text) ' ' text

/-! ## 2. Quoted text -/

/-- What stands between quotes, given all behind the opening ones. -/
def quotedBody? (mark : Char) (triple : Bool) : List Char → Option (List Char)
  | [] => none
  | '\\' :: c :: rest => (quotedBody? mark triple rest).map ('\\' :: c :: ·)
  | c :: rest =>
    if c = mark && (!triple || rest.take 2 = [mark, mark]) then some []
    else if !triple && (c = '\n' || c = '\r') then none
    else (quotedBody? mark triple rest).map (c :: ·)

/-- Whether a text starts with `count` digits of base sixteen. -/
def startsWithHex (count : Nat) (text : List Char) : Bool :=
  (text.take count).length = count && (text.take count).all (isDigitOf 16)

/-- The number of digits of base sixteen. -/
def ofHexDigits (digits : List Char) : Nat :=
  digits.foldl (fun n c => 16 * n +
    (if Text.isAsciiDigit c then c.toNat - 0x30 else c.toLower.toNat - 0x61 + 10)) 0

/-- Whether an escape is complete, given the character behind the backslash and the rest. -/
def isEscape (bytes : Bool) (c : Char) (rest : List Char) : Bool :=
  match c with
  | 'x' => startsWithHex 2 rest
  | 'u' => bytes || startsWithHex 4 rest
  | 'U' => bytes || (startsWithHex 8 rest && ofHexDigits (rest.take 8) ≤ 0x10FFFF)
  | 'N' => bytes || (rest.head? = some '\x7b' && rest.contains '\x7d')
  | _ => true

/-- Whether all escapes of a text are complete. -/
def hasCompleteEscapes (bytes : Bool) : List Char → Bool
  | [] => true
  | '\\' :: c :: rest => isEscape bytes c rest && hasCompleteEscapes bytes rest
  | _ :: rest => hasCompleteEscapes bytes rest

/-! ## 3. Tokens -/

/-- The parts of a literal. -/
inductive LiteralToken where
  | real
  | imaginary
  | text
  | bytes
  | constant
  | emptySet
  | sign
  | comma
  | colon
  | openRound
  | closeRound
  | openCurly
  | closeCurly
  | lineEnd
deriving DecidableEq, Repr

/-- The token at the front of a text, which starts with a number, and its length. -/
def numberToken? (text : List Char) : Option (Nat × Option LiteralToken) :=
  let lexeme := numberLexeme text
  match lexeme.getLast? with
  | some 'j' | some 'J' =>
    if isPointNumber lexeme.dropLast then some (lexeme.length, some .imaginary) else none
  | _ => if isRealNumber lexeme then some (lexeme.length, some .real) else none

/-- The token at the front of a text, which starts with a quote behind the letters `flags`, and its
    length without them. -/
def quotedToken? (flags : List Char) (text : List Char) : Option (Nat × Option LiteralToken) :=
  let bytes := flags.contains 'b'
  match text with
  | mark :: rest =>
    let triple := rest.take 2 = [mark, mark]
    match quotedBody? mark triple (if triple then rest.drop 2 else rest) with
    | none => none
    | some body =>
      if [[], ['r'], ['u'], ['b'], ['r', 'b'], ['b', 'r']].contains flags &&
          (flags.contains 'r' || hasCompleteEscapes bytes body) &&
          (!bytes || body.all fun c => c.toNat < 128) then
        some (body.length + (if triple then 6 else 2), some (if bytes then .bytes else .text))
      else none
  | [] => none

/-- The length of a pair of parentheses in front with nothing but blanks in and before it. -/
def emptyParens? (text : List Char) : Option Nat :=
  let outer := (text.takeWhile (· = ' ')).length
  match text.drop outer with
  | '(' :: rest =>
    let inner := (rest.takeWhile (· = ' ')).length
    if (rest.drop inner).head? = some ')' then some (outer + inner + 2) else none
  | _ => none

/-- The token of a word, and the length of what it takes. -/
def wordToken? (word rest : List Char) : Option (Nat × Option LiteralToken) :=
  let name := String.ofList word
  if name = "True" || name = "False" || name = "None" then some (word.length, some .constant)
  else if name = "set" then
    (emptyParens? rest).map fun length => (word.length + length, some .emptySet)
  else none

/-- The sign that a character is on its own. -/
def markToken? : Char → Option LiteralToken
  | '+' | '-' => some .sign
  | ',' => some .comma
  | ':' => some .colon
  | '(' => some .openRound
  | ')' => some .closeRound
  | '\x7b' => some .openCurly
  | '\x7d' => some .closeCurly
  | _ => none

/-- What stands at the front of a text that is open `depth` brackets deep: its length, and the
    token that it is, unless it counts for nothing. None if it is no part of a literal. -/
def literalToken? (depth : Nat) (text : List Char) : Option (Nat × Option LiteralToken) :=
  match text with
  | [] => none
  | c :: rest =>
    if c = ' ' || c = '\t' || c = '\x0c' then some (1, none)
    else if c = '\n' || c = '\r' then some (1, if depth = 0 then some .lineEnd else none)
    else if c = '#' then some (1 + (rest.takeWhile fun d => d != '\n' && d != '\r').length, none)
    else if text.take 3 = ['.', '.', '.'] then some (3, some .constant)
    else if Text.isAsciiDigit c || c = '.' then numberToken? text
    else if Text.isIdentStart c then
      let word := text.takeWhile Text.isIdentPart
      let behind := text.dropWhile Text.isIdentPart
      if behind.head? = some '\'' || behind.head? = some '"' then
        (quotedToken? (word.map Char.toLower) behind).map fun t => (word.length + t.1, t.2)
      else wordToken? word behind
    else if c = '\'' || c = '"' then quotedToken? [] text
    else (markToken? c).map fun t => (1, some t)

/-- The depth behind a token. -/
def depthAfter (depth : Nat) : Option LiteralToken → Nat
  | some .openRound | some .openCurly => depth + 1
  | some .closeRound | some .closeCurly => depth - 1
  | _ => depth

/-- The tokens of a text. Its first `inside` characters belong to a token that has been read. -/
def literalTokensFrom? (inside depth : Nat) : List Char → Option (List LiteralToken)
  | [] => some []
  | c :: rest =>
    match inside with
    | more + 1 => literalTokensFrom? more depth rest
    | 0 => match literalToken? depth (c :: rest) with
      | none => none
      | some (length, token) =>
        (literalTokensFrom? (length - 1) (depthAfter depth token) rest).map (token.toList ++ ·)

/-! ## 4. Literals -/

/-- What matters of a literal where it is used. -/
inductive LiteralForm where
  | real
  | imaginary
  | signedReal
  /-- Anything else that can be a key. -/
  | scalar
  /-- What cannot be a key. -/
  | collection
deriving DecidableEq, Repr

/-- The form of several literals together. -/
def tupleForm (forms : List LiteralForm) : LiteralForm :=
  if forms.contains .collection then .collection else .scalar

mutual

/-- Reads a literal; gives its form and what follows. -/
def readLiteral? : Nat → List LiteralToken → Option (LiteralForm × List LiteralToken)
  | 0, _ => none
  | fuel + 1, tokens => match readTerm? fuel tokens with
    | some (form, .sign :: more) =>
      if form = .real || form = .signedReal then
        match readTerm? fuel more with
        | some (.imaginary, rest) => some (.scalar, rest)
        | _ => none
      else none
    | outcome => outcome

/-- Reads a literal that is no sum. -/
def readTerm? : Nat → List LiteralToken → Option (LiteralForm × List LiteralToken)
  | 0, _ => none
  | fuel + 1, tokens => match tokens with
    | .real :: rest => some (.real, rest)
    | .imaginary :: rest => some (.imaginary, rest)
    | .constant :: rest => some (.scalar, rest)
    | .emptySet :: rest => some (.collection, rest)
    | .text :: rest => some (.scalar, rest.dropWhile (· = .text))
    | .bytes :: rest => some (.scalar, rest.dropWhile (· = .bytes))
    | .sign :: rest => match readTerm? fuel rest with
      | some (.real, more) => some (.signedReal, more)
      | some (.imaginary, more) => some (.scalar, more)
      | _ => none
    | .openRound :: .closeRound :: rest => some (.scalar, rest)
    | .openRound :: rest => match readItems? fuel rest with
      | some ([form], false, .closeRound :: more) => some (form, more)
      | some (forms, true, .closeRound :: more) => some (tupleForm forms, more)
      | _ => none
    | .openCurly :: .closeCurly :: rest => some (.collection, rest)
    | .openCurly :: rest => match readLiteral? fuel rest with
      | some (key, .colon :: more) =>
        if key = .collection then none
        else match readValues? fuel more with
          | some (.closeCurly :: after) => some (.collection, after)
          | _ => none
      | some (form, .closeCurly :: after) =>
        if form = .collection then none else some (.collection, after)
      | some (form, .comma :: .closeCurly :: after) =>
        if form = .collection then none else some (.collection, after)
      | some (form, .comma :: more) => match readItems? fuel more with
        | some (forms, _, .closeCurly :: after) =>
          if tupleForm (form :: forms) = .collection then none else some (.collection, after)
        | _ => none
      | _ => none
    | _ => none

/-- Reads literals with commas between them; gives their forms, whether there are any commas, and
    what follows. -/
def readItems? : Nat → List LiteralToken → Option (List LiteralForm × Bool × List LiteralToken)
  | 0, _ => none
  | fuel + 1, tokens => match readLiteral? fuel tokens with
    | none => none
    | some (form, .comma :: more) => match readItems? fuel more with
      | some (forms, _, rest) => some (form :: forms, true, rest)
      | none => some ([form], true, more)
    | some (form, rest) => some ([form], false, rest)

/-- Reads the value of an entry and all entries behind it; gives what follows. -/
def readValues? : Nat → List LiteralToken → Option (List LiteralToken)
  | 0, _ => none
  | fuel + 1, tokens => match readLiteral? fuel tokens with
    | none => none
    | some (_, .comma :: more) => match readLiteral? fuel more with
      | some (key, .colon :: rest) => if key = .collection then none else readValues? fuel rest
      | _ => some more
    | some (_, rest) => some rest

end

/-- Whether a text is a literal, or several with commas between them. -/
def isLiteral (text : List Char) : Bool :=
  match literalTokensFrom? 0 0 text with
  | none => false
  | some tokens => match readItems? (4 * tokens.length + 4) tokens with
    | some (_, _, rest) => rest.all (· = .lineEnd)
    | none => false

end Marginalia.Console

import Marginalia.Text.Blank
import Marginalia.Text.Case
import Marginalia.Text.Utf8

/-!
# Comments, strings and numbers of PHP sources

What takes more than one look at the next character to be cut out of code:

* a comment to the end of its line ends before the tag that closes code, if that comes first;
* strings run to their closing quote, code that is written inside them passed over; heredocs run
  to their closing label;
* a number may have single underscores between its digits. One with a point needs digits on one
  side of it only.
-/

namespace Marginalia.Php

/-! ## 1. Characters -/

/-- The blanks that are not white space: they separate words all the same. -/
def isHiddenBlank (c : Char) : Bool :=
  c = '\u00A0' || c = '\u200B' || c = '\u2060' || c = '\uFEFF'

/-- The blanks of ASCII. -/
def isPlainBlank (c : Char) : Bool := c = ' ' || (0x9 ≤ c.toNat && c.toNat ≤ 0xD)

/-- What separates lexemes. -/
def isGap (c : Char) : Bool := isPlainBlank c || isHiddenBlank c

/-- What a word may start with. -/
def isWordStart (c : Char) : Bool :=
  c = '_' || c.isAlpha || (0x80 ≤ c.toNat && !isHiddenBlank c)

/-- What a word may go on with. -/
def isWordPart (c : Char) : Bool := isWordStart c || c.isDigit

/-- Whether a text starts with a given one, in lower case. -/
def startsWith (start : String) (cs : List Char) : Bool :=
  start.toList.isPrefixOf ((cs.take start.length).map Char.toLower)

/-! ## 2. Comments, strings and numbers -/

/-- The text up to and including the first occurrence of `stop`. -/
def through (stop : List Char) : List Char → List Char
  | [] => []
  | c :: rest => if stop.isPrefixOf (c :: rest) then stop else c :: through stop rest

/-- The text of a comment that ends with its line or with the code. A question mark takes the
    next character with it, unless that one makes it the tag that closes the code. -/
def lineComment (taken : Bool) : List Char → List Char
  | [] => []
  | c :: rest =>
    if c = '\n' || c = '\r' then []
    else if !taken && c = '?' && rest.head? = some '>' then []
    else c :: lineComment (!taken && c = '?') rest

/-- What is open while a string is read. -/
inductive Open where
  /-- A string in which code can be written. -/
  | template (quote : Char)
  /-- A plain string. -/
  | plain
  /-- Code inside a string. -/
  | code
  /-- A comment inside that code; one of the two kinds ends with its line. -/
  | remark (endsWithLine : Bool)
deriving DecidableEq, Repr

/-- What one character opens or closes; `next` is the character behind it. -/
def Open.after (c : Char) (next : Option Char) : List Open → List Open
  | [] => []
  | .template quote :: outer =>
    if c = quote then outer
    else if (c = '\x7b' && next = some '$') || (c = '$' && next = some '\x7b') then
      .code :: .template quote :: outer
    else .template quote :: outer
  | .plain :: outer => if c = '\x27' then outer else .plain :: outer
  | .code :: outer =>
    if c = '\x7b' then .code :: .code :: outer
    else if c = '\x7d' then outer
    else if c = '"' || c = '\x60' then .template c :: .code :: outer
    else if c = '\x27' then .plain :: .code :: outer
    else if c = '/' && next = some '*' then .remark false :: .code :: outer
    else if (c = '/' && next = some '/') || (c = '#' && next != some '[') then
      .remark true :: .code :: outer
    else .code :: outer
  | .remark true :: outer => if c = '\n' || c = '\r' then outer else .remark true :: outer
  | .remark false :: outer =>
    if c = '*' && next = some '/' then outer else .remark false :: outer

/-- Whether a backslash takes the next character with it. -/
def Open.escapes : List Open → Bool
  | .template _ :: _ | .plain :: _ => true
  | _ => false

/-- Whether the next character means nothing of its own behind a character that opened or closed
    something: the brace behind a dollar sign, and what is left of the marks of a comment. -/
def Open.takesNext (c : Char) (opened next : List Open) : Bool :=
  next != opened && (c = '$' || (c = '/' && next.head? = some (.remark false)) ||
    (c = '*' && opened.head? = some (.remark false)))

/-- The rest of a string while something is open; `escaped` says whether the next character is
    taken as it is. -/
def stringTail (opened : List Open) (escaped : Bool) : List Char → List Char
  | [] => []
  | c :: rest =>
    if opened.isEmpty then []
    else if escaped then c :: stringTail opened false rest
    else if c = '\\' && Open.escapes opened then c :: stringTail opened true rest
    else
      let next := Open.after c rest.head? opened
      c :: stringTail next (Open.takesNext c opened next) rest

/-- The label of a heredoc behind an opening quote, and as it is written between two of them. -/
def quotedLabel? (quote : Char) (cs : List Char) : Option (List Char × List Char) :=
  let label := cs.takeWhile isWordPart
  if !label.isEmpty && (cs.drop label.length).head? = some quote then
    some (label, quote :: label ++ [quote])
  else none

/-- The label of a heredoc with its quotes, if one stands in front. -/
def heredocLabel? (cs : List Char) : Option (List Char × List Char) :=
  match cs with
  | '"' :: rest => quotedLabel? '"' rest
  | '\x27' :: rest => quotedLabel? '\x27' rest
  | rest =>
    let label := rest.takeWhile isWordPart
    if label.isEmpty then none else some (label, label)

/-- Whether the label that ends a heredoc stands in front. -/
def endsHeredoc (label cs : List Char) : Bool :=
  label.isPrefixOf cs && !((cs.drop label.length).head?.any isWordPart)

/-- The body of a heredoc and its closing label. -/
def heredocTail (label : List Char) (atLineStart : Bool) : List Char → List Char
  | [] => []
  | c :: rest =>
    let indent := (c :: rest).takeWhile fun d => d = ' ' || d = '\t'
    if atLineStart && endsHeredoc label ((c :: rest).drop indent.length) then indent ++ label
    else c :: heredocTail label (c = '\n') rest

/-- A heredoc in front. -/
def heredoc? : List Char → Option (List Char)
  | '<' :: '<' :: '<' :: rest =>
    let gap := rest.takeWhile fun d => d = ' ' || d = '\t'
    (heredocLabel? (rest.drop gap.length)).map fun (label, written) =>
      ['<', '<', '<'] ++ gap ++ written ++
        heredocTail label false (rest.drop (gap.length + written.length))
  | _ => none

/-- Digits that satisfy `p`, in groups with single underscores between them. -/
def digitRow (p : Char → Bool) : List Char → List Char
  | [] => []
  | c :: rest =>
    if p c then c :: digitRow p rest
    else if c = '_' && rest.head?.any p then c :: digitRow p rest
    else []

/-- The exponent in front, if it is complete. -/
def exponent (cs : List Char) : List Char :=
  match cs with
  | mark :: rest =>
    let sign := (rest.take 1).filter fun c => c = '+' || c = '-'
    let digits := digitRow Char.isDigit (rest.drop sign.length)
    if (mark = 'e' || mark = 'E') && digits.head?.any Char.isDigit then mark :: sign ++ digits
    else []
  | [] => []

/-- The number with a point or an exponent in front; nothing if there is none. -/
def pointNumber (cs : List Char) : List Char :=
  let whole := digitRow Char.isDigit cs
  match cs.drop whole.length with
  | '.' :: rest =>
    let fraction := digitRow Char.isDigit rest
    whole ++ '.' :: fraction ++ exponent (rest.drop fraction.length)
  | rest => if (exponent rest).isEmpty then [] else whole ++ exponent rest

/-- A digit of base sixteen. -/
def isHexDigit (c : Char) : Bool :=
  c.isDigit || (0x61 ≤ c.toLower.toNat && c.toLower.toNat ≤ 0x66)

/-- A digit of base eight. -/
def isOctalDigit (c : Char) : Bool := '0'.toNat ≤ c.toNat && c.toNat ≤ '7'.toNat

/-- The whole number in front. -/
def wholeNumber (cs : List Char) : List Char :=
  match cs with
  | '0' :: mark :: rest =>
    let based := fun p => match digitRow p rest with
      | [] => ['0']
      | digits => '0' :: mark :: digits
    if mark = 'x' || mark = 'X' then based isHexDigit
    else if mark = 'b' || mark = 'B' then based fun c => c = '0' || c = '1'
    else if mark = 'o' || mark = 'O' then '0' :: mark :: digitRow isOctalDigit rest
    else '0' :: digitRow isOctalDigit (mark :: rest)
  | _ => digitRow Char.isDigit cs

/-- The number in front: the longest that can be read. -/
def number (cs : List Char) : List Char :=
  if (wholeNumber cs).length < (pointNumber cs).length then pointNumber cs else wholeNumber cs

end Marginalia.Php

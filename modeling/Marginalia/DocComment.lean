import Marginalia.Expression.Eval
import Marginalia.Text.Blank

/-!
# Doc-comments

A doc-comment is prose with annotations in it.

* `strip` removes the delimiters of the comment and the star in front of each line;
* an annotation starts at an at sign that opens the text or follows a blank, with its name right
  behind it. A name that leads elsewhere is prose;
* if the next character that is not blank is an opening parenthesis, the annotation runs to the
  parenthesis that closes it, strings passed over (`throughClosing?`); otherwise it is the name
  alone. The search goes on behind it, so what is written inside an annotation is never found a
  second time.
-/

namespace Marginalia.DocComment

/-! ## 1. The text of a comment -/

/-- A line without the star in front of it. A star that a slash follows is kept. -/
def stripLine (line : List Char) : List Char :=
  match Text.trimLeft line with
  | '*' :: '/' :: _ => line
  | '*' :: rest => rest
  | _ => line

/-- Removes the opening delimiter. -/
def dropOpening : List Char → List Char
  | '/' :: '*' :: '*' :: rest => rest
  | body => body

/-- Removes the closing delimiter. -/
def dropClosing (body : List Char) : List Char :=
  match body.reverse with
  | '/' :: '*' :: rest => rest.reverse
  | _ => body

/-- The text of a comment. -/
def strip (comment : List Char) : List Char :=
  Text.joinLines ((Text.lines (dropClosing (dropOpening (Text.trim comment)))).map stripLine)

/-! ## 2. The extent of an annotation -/

/-- The text up to and including the parenthesis that closes the innermost of `depth + 1` open
    ones; `inString` says whether a string is open. Every quote opens or closes a string: a doubled
    quote closes one and opens the next, which comes to the same as staying inside. -/
def throughClosing? (depth : Nat) (inString : Bool) : List Char → Option (List Char)
  | [] => none
  | c :: rest =>
    if c = '"' then (throughClosing? depth (!inString) rest).map (c :: ·)
    else if inString then (throughClosing? depth true rest).map (c :: ·)
    else if c = '(' then (throughClosing? (depth + 1) false rest).map (c :: ·)
    else if c = ')' then
      match depth with
      | 0 => some [c]
      | outer + 1 => (throughClosing? outer false rest).map (c :: ·)
    else (throughClosing? depth false rest).map (c :: ·)

/-- The argument list in front of a text, blanks before it included: nothing if there is none, a
    fault if it is never closed. -/
def argumentList (name : String) (text : List Char) : Except Fault (List Char) :=
  match Text.trimLeft text with
  | '(' :: rest => match throughClosing? 0 false rest with
    | some inner => .ok (text.takeWhile Text.isBlank ++ '(' :: inner)
    | none => .error (.unclosed name)
  | _ => .ok []

/-- A name behind an at sign: identifiers with separators between them, and an optional separator
    in front. -/
def plainName? : List Char → Option (List Char)
  | '\\' :: rest => (Expression.identifiers? rest).map ('\\' :: ·)
  | cs => Expression.identifiers? cs

/-- Whether an annotation can start behind this character, or at the start of the text. -/
def mayStart : Option Char → Bool
  | none => true
  | some c => Text.isBlank c

/-! ## 3. The annotations of a comment -/

/-- The annotation that starts at the front of a text, with its extent; none if the text starts
    with prose. -/
def annotationAt (aliases : Aliases) (before : Option Char) (text : List Char) :
    Except Fault (Option (Value × Nat)) :=
  match text with
  | '@' :: rest =>
    match if mayStart before then plainName? rest else none with
    | none => .ok none
    | some name =>
      match Expression.kindOf aliases (String.ofList name) with
      | .error fault => .error fault
      | .ok none => .ok none
      | .ok (some _) =>
        match argumentList (String.ofList name) (rest.drop name.length) with
        | .error fault => .error fault
        | .ok arguments =>
          let source := '@' :: name ++ arguments
          (Expression.evaluate aliases source).map fun v => some (v, source.length)
  | _ => .ok none

/-- The annotations of a text behind the character `before`; the first `inside` characters belong
    to an annotation that has been read already. -/
def annotationsFrom (aliases : Aliases) (inside : Nat) (before : Option Char) :
    List Char → Except Fault (List Note)
  | [] => .ok []
  | c :: rest =>
    match inside with
    | more + 1 => annotationsFrom aliases more (some c) rest
    | 0 =>
      match annotationAt aliases before (c :: rest) with
      | .error fault => .error fault
      | .ok (some (.note a, extent)) =>
        (annotationsFrom aliases (extent - 1) (some c) rest).map (a :: ·)
      | .ok _ => annotationsFrom aliases 0 (some c) rest

/-- The annotations of a comment. -/
def parse (comment : String) (aliases : Aliases) : Except Fault (List Note) :=
  annotationsFrom aliases 0 none (strip comment.toList)

end Marginalia.DocComment

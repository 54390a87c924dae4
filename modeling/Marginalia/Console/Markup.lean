import Marginalia.Console.Emoji
import Marginalia.Console.Literal
import Marginalia.Console.Style
import Marginalia.Text.Width

/-!
# Markup on the console

Text for the console may hold tags in square brackets, which style it and are not shown
(`shownLines`).

* a tag opens with a bracket and a small letter or one of the signs `#`, `/` and `@`, and runs to
  the next closing bracket, unless another bracket opens before that. Any other bracket is text;
* an odd number of backslashes before a tag makes it text; every two of them show as one. A
  backslash before a bracket that opens no tag is not shown either;
* a tag that starts with a slash closes the innermost open tag of the same style, or the innermost
  one if it names none. Closing what is not open is a fault;
* a tag that starts with an at sign is an action. To close one whose arguments are no literal is a
  fault as well;
* in plain text, emoji codes are replaced, and tabs are filled up with blanks.
-/

namespace Marginalia.Console

/-! ## 1. Tags -/

/-- Whether a tag can start with a character. -/
def opensTag (c : Char) : Bool :=
  (0x61 ≤ c.toNat && c.toNat ≤ 0x7A) || c = '#' || c = '/' || c = '@'

/-- The text up to a closing bracket, if no bracket opens before it. -/
def throughBracket? : List Char → Option (List Char)
  | [] => none
  | c :: rest =>
    if c = ']' then some []
    else if c = '[' then none
    else (throughBracket? rest).map (c :: ·)

/-- The text of the tag that stands at the front of a text. -/
def bareTag? : List Char → Option (List Char)
  | '[' :: c :: rest => if opensTag c then (throughBracket? rest).map (c :: ·) else none
  | _ => none

/-- The tag at the front of a text, behind any number of backslashes: their number, and the text
    of the tag. -/
def tag? (text : List Char) : Option (Nat × List Char) :=
  let slashes := (text.takeWhile (· = '\\')).length
  (bareTag? (text.drop slashes)).map fun tag => (slashes, tag)

/-- What marked up text is made of. -/
inductive Piece where
  | plain (text : List Char)
  | tag (text : List Char)
deriving DecidableEq, Repr

/-- The pieces that a tag behind backslashes gives. -/
def tagPieces (slashes : Nat) (tag : List Char) : List Piece :=
  [.plain (List.replicate (slashes / 2) '\\'),
    if slashes % 2 = 1 then .plain ('[' :: tag ++ [']']) else .tag tag]

/-- The pieces of a text. `before` is the plain text right in front of it, last character first,
    and the first `inside` characters belong to a tag that has been read already. -/
def piecesFrom (inside : Nat) (before : List Char) : List Char → List Piece
  | [] => [.plain before.reverse]
  | c :: rest =>
    match inside with
    | more + 1 => piecesFrom more before rest
    | 0 => match tag? (c :: rest) with
      | some (slashes, tag) =>
        .plain before.reverse :: tagPieces slashes tag ++
          piecesFrom (slashes + tag.length + 1) [] rest
      | none => piecesFrom 0 (c :: before) rest

/-! ## 2. Open tags -/

/-- What is wrong with marked up text. -/
inductive MarkupFault where
  /-- A tag closes what is not open. -/
  | unmatched
  /-- The arguments of an action are no literal. -/
  | badArguments
  /-- A part of a colour is no number. -/
  | badNumber
deriving DecidableEq, Repr

/-- A fault of a style that cannot be passed over. -/
def MarkupFault.ofStyle {α : Type} : Except StyleFault α → Except MarkupFault α
  | .ok a => .ok a
  | .error _ => .error .badNumber

/-- A tag that opens something: the name by which it is closed, and what stands behind an equals
    sign. -/
structure OpenTag where
  name : String
  parameter : List Char
deriving DecidableEq, Repr

/-- The name of a tag: what stands before an equals sign. -/
def tagName (tag : List Char) : List Char := tag.takeWhile (· != '=')

/-- What stands behind the equals sign of a tag. -/
def tagParameter (tag : List Char) : List Char := (tag.dropWhile (· != '=')).drop 1

/-- Reads a tag that opens something. -/
def OpenTag.read (tag : List Char) : Except MarkupFault OpenTag :=
  (MarkupFault.ofStyle (styleName (tagName tag))).map fun name => ⟨name, tagParameter tag⟩

/-- The literal that the parameter of an action has to be: all of it, unless it is the name of a
    handler with or without arguments, of which the arguments count. -/
def argumentsOf (parameter : List Char) : List Char :=
  match parameter.dropWhile fun c => c = '.' || Text.isWord c with
  | [] => "()".toList
  | '(' :: rest =>
    if rest.getLast? = some ')' && !rest.contains '\n' then '(' :: rest else parameter
  | _ => parameter

/-- Whether a tag can be closed: if it is an action with a parameter, its arguments have to be a
    literal. -/
def OpenTag.closes (t : OpenTag) : Bool :=
  t.name.toList.head? != some '@' || t.parameter.isEmpty ||
    isLiteral (argumentsOf (Text.trim t.parameter))

/-- Takes a tag off the open ones, innermost first. -/
def closeTag (openTags : List OpenTag) : Option OpenTag → Except MarkupFault (List OpenTag)
  | none => .error .unmatched
  | some t => if t.closes then .ok (openTags.erase t) else .error .badArguments

/-- The open tags, innermost first, after a tag. -/
def afterTag (openTags : List OpenTag) (tag : List Char) : Except MarkupFault (List OpenTag) :=
  match tagName tag with
  | '/' :: name =>
    if (Text.trim name).isEmpty then closeTag openTags openTags.head?
    else match styleName (Text.trim name) with
      | .ok style => closeTag openTags (openTags.find? (·.name == style))
      | .error _ => .error .badNumber
  | _ => (OpenTag.read tag).map (· :: openTags)

/-- Whether the style of a tag with a parameter cannot be worked out. -/
def hasBadStyle (tag : List Char) : Bool :=
  match tagName tag, OpenTag.read tag with
  | '/' :: _, _ => false
  | _, .error _ => true
  | _, .ok t => match Style.read (t.name.toList ++ ' ' :: t.parameter) with
    | .error .badNumber => true
    | _ => false

/-! ## 3. What is shown -/

/-- Plain text without the backslashes in front of brackets. -/
def unescape : List Char → List Char
  | '\\' :: '[' :: rest => '[' :: unescape rest
  | c :: rest => c :: unescape rest
  | [] => []

/-- The text that pieces show inside open tags. -/
def shownFrom (openTags : List OpenTag) : List Piece → Except MarkupFault (List Char)
  | [] => .ok []
  | .plain text :: more =>
    (shownFrom openTags more).map (replaceCodes (unescape text) ++ ·)
  | .tag tag :: more => match afterTag openTags tag with
    | .ok inner => shownFrom inner more
    | .error fault => .error fault

/-- The controls that a console does not show. -/
def isHiddenControl (c : Char) : Bool := [7, 8, 11, 12, 13].contains c.toNat

/-- Whether the style of any tag cannot be worked out. -/
def anyBadStyle (pieces : List Piece) : Bool :=
  pieces.any fun
    | .tag tag => hasBadStyle tag
    | .plain _ => false

/-- The text that marked up text shows. -/
def shown (markup : String) : Except MarkupFault (List Char) :=
  let pieces := piecesFrom 0 [] markup.toList
  match shownFrom [] pieces with
  | .error fault => .error fault
  | .ok text =>
    if anyBadStyle pieces then .error .badNumber
    else .ok (text.filter fun c => !isHiddenControl c)

/-- A line with its tabs filled up to the next multiple of eight columns. -/
def expandTabs (column : Nat) : List Char → List Char
  | [] => []
  | c :: rest =>
    if c = '\t' then
      let width := 8 - column % 8
      List.replicate width ' ' ++ expandTabs (column + width) rest
    else c :: expandTabs (column + Text.columns c) rest

/-- The lines that marked up text shows. -/
def shownLines (markup : String) : Except MarkupFault (List String) :=
  (shown markup).map fun text =>
    (Text.splitAt '\n' text).map fun line => String.ofList (expandTabs 0 line)

end Marginalia.Console

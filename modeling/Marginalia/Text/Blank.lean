import Marginalia.Text.Ranges

/-!
# Blank characters, trimming, lines and pieces

* a character is blank if the standard counts it as white space or as a separator of information
  units (`isBlank`); trimming removes blanks at the ends of a text;
* a text falls into lines at every character of `isLineEnd`, a carriage return and a following
  line feed being one end (`lines`). An end at the very end of the text opens no further line;
* a text falls into pieces at every occurrence of a character (`splitAt`), and into words at its
  blanks (`words`).
-/

namespace Marginalia.Text

/-! ## 1. Blanks -/

/-- The code points of blank characters. -/
def blankRanges : Ranges := [
  (0x9, 0xD), (0x1C, 0x20), (0x85, 0x85), (0xA0, 0xA0), (0x1680, 0x1680), (0x2000, 0x200A),
  (0x2028, 0x2029), (0x202F, 0x202F), (0x205F, 0x205F), (0x3000, 0x3000)]

/-- White space, including the four separators of information units. -/
def isBlank (c : Char) : Bool := blankRanges.has c

/-- White space proper: a blank that is no separator of information units. -/
def isSpace (c : Char) : Bool := isBlank c && !(0x1C ≤ c.toNat && c.toNat ≤ 0x1F)

/-- Removes what satisfies `p` at the left end. -/
def dropLeft (p : Char → Bool) (s : List Char) : List Char := s.dropWhile p

/-- Removes what satisfies `p` at the right end. -/
def dropRight (p : Char → Bool) (s : List Char) : List Char := (s.reverse.dropWhile p).reverse

/-- Removes the blanks at the left end. -/
def trimLeft (s : List Char) : List Char := dropLeft isBlank s

/-- Removes the blanks at the right end. -/
def trimRight (s : List Char) : List Char := dropRight isBlank s

/-- Removes the blanks at both ends. -/
def trim (s : List Char) : List Char := trimRight (trimLeft s)

/-- `trim` on strings. -/
def trimmed (s : String) : String := String.ofList (trim s.toList)

/-! ## 2. Lines -/

/-- The characters that end a line. -/
def isLineEnd (c : Char) : Bool :=
  c = '\n' || c = '\r' || c = '\x0b' || c = '\x0c' || c = '\x1c' || c = '\x1d' || c = '\x1e' ||
    c = '\u0085' || c = '\u2028' || c = '\u2029'

/-- The lines of a text, without their ends. -/
def lines : List Char → List (List Char)
  | [] => []
  | '\r' :: '\n' :: rest => [] :: lines rest
  | c :: rest =>
    if isLineEnd c then [] :: lines rest
    else match lines rest with
      | [] => [[c]]
      | line :: more => (c :: line) :: more

/-- The lines joined again, a line feed between any two. -/
def joinLines : List (List Char) → List Char
  | [] => []
  | [line] => line
  | line :: more => line ++ '\n' :: joinLines more

/-! ## 3. Pieces -/

/-- Splits a text at every occurrence of a character. -/
def splitAt (sep : Char) : List Char → List (List Char)
  | [] => [[]]
  | c :: rest =>
    if c = sep then [] :: splitAt sep rest
    else match splitAt sep rest with
      | [] => [[c]]
      | part :: more => (c :: part) :: more

/-- The pieces of a text between blanks. -/
def words (text : List Char) : List (List Char) :=
  (splitAt ' ' (text.map fun c => if isBlank c then ' ' else c)).filter (!·.isEmpty)

end Marginalia.Text

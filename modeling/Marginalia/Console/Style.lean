import Marginalia.Number.Whole
import Marginalia.Text.Case

/-!
# Styles

A style says how text is shown: its effects, its colour, the colour behind it, and a link. It is
written as a row of words, in any order.

* an effect is named in full or by a short form; `not` in front of it takes it away. Of several
  words about one effect the last counts, and so it is with colours and links;
* a colour is named, or given by its number or by its parts. The word `on` stands in front of the
  colour behind the text, `link` in front of a link;
* `Style.text` writes a style in one order, so that two ways to say the same are told to be the
  same. Words that make no style (`StyleFault.unreadable`) are themselves, in lower case.
-/

namespace Marginalia.Console

/-! ## 1. Effects and colours -/

/-- The effects, in the order in which they are written. -/
inductive Effect where
  | bold
  | dim
  | italic
  | underline
  | blink
  | fastBlink
  | reverse
  | conceal
  | strike
  | doubleUnderline
  | frame
  | encircle
  | overline
deriving DecidableEq, Repr

namespace Effect

/-- All effects. -/
def all : List Effect :=
  [.bold, .dim, .italic, .underline, .blink, .fastBlink, .reverse, .conceal, .strike,
    .doubleUnderline, .frame, .encircle, .overline]

/-- The name of an effect. -/
def name : Effect → String
  | .bold => "bold"
  | .dim => "dim"
  | .italic => "italic"
  | .underline => "underline"
  | .blink => "blink"
  | .fastBlink => "blink2"
  | .reverse => "reverse"
  | .conceal => "conceal"
  | .strike => "strike"
  | .doubleUnderline => "underline2"
  | .frame => "frame"
  | .encircle => "encircle"
  | .overline => "overline"

/-- The short form of an effect's name. -/
def shortName? : Effect → Option String
  | .bold => some "b"
  | .dim => some "d"
  | .italic => some "i"
  | .underline => some "u"
  | .reverse => some "r"
  | .conceal => some "c"
  | .strike => some "s"
  | .doubleUnderline => some "uu"
  | .overline => some "o"
  | _ => none

/-- The effect that a word names. -/
def ofWord? (word : String) : Option Effect :=
  all.find? fun e => e.name == word || e.shortName? == some word

end Effect

/-- The names of colours. -/
def colourNames : List String := [
  "default",
  "black", "red", "green", "yellow", "blue", "magenta", "cyan", "white", "bright_black",
  "bright_red", "bright_green", "bright_yellow", "bright_blue", "bright_magenta", "bright_cyan",
  "bright_white", "grey0", "gray0", "navy_blue", "dark_blue", "blue3", "blue1", "dark_green",
  "deep_sky_blue4", "dodger_blue3", "dodger_blue2", "green4", "spring_green4", "turquoise4",
  "deep_sky_blue3", "dodger_blue1", "green3", "spring_green3", "dark_cyan", "light_sea_green",
  "deep_sky_blue2", "deep_sky_blue1", "spring_green2", "cyan3", "dark_turquoise", "turquoise2",
  "green1", "spring_green1", "medium_spring_green", "cyan2", "cyan1", "dark_red", "deep_pink4",
  "purple4", "purple3", "blue_violet", "orange4", "grey37", "gray37", "medium_purple4",
  "slate_blue3", "royal_blue1", "chartreuse4", "dark_sea_green4", "pale_turquoise4", "steel_blue",
  "steel_blue3", "cornflower_blue", "chartreuse3", "cadet_blue", "sky_blue3", "steel_blue1",
  "pale_green3", "sea_green3", "aquamarine3", "medium_turquoise", "chartreuse2", "sea_green2",
  "sea_green1", "aquamarine1", "dark_slate_gray2", "dark_magenta", "dark_violet", "purple",
  "light_pink4", "plum4", "medium_purple3", "slate_blue1", "yellow4", "wheat4", "grey53",
  "gray53", "light_slate_grey", "light_slate_gray", "medium_purple", "light_slate_blue",
  "dark_olive_green3", "dark_sea_green", "light_sky_blue3", "sky_blue2", "dark_sea_green3",
  "dark_slate_gray3", "sky_blue1", "chartreuse1", "light_green", "pale_green1",
  "dark_slate_gray1", "red3", "medium_violet_red", "magenta3", "dark_orange3", "indian_red",
  "hot_pink3", "medium_orchid3", "medium_orchid", "medium_purple2", "dark_goldenrod",
  "light_salmon3", "rosy_brown", "grey63", "gray63", "medium_purple1", "gold3", "dark_khaki",
  "navajo_white3", "grey69", "gray69", "light_steel_blue3", "light_steel_blue", "yellow3",
  "dark_sea_green2", "light_cyan3", "light_sky_blue1", "green_yellow", "dark_olive_green2",
  "dark_sea_green1", "pale_turquoise1", "deep_pink3", "magenta2", "hot_pink2", "orchid",
  "medium_orchid1", "orange3", "light_pink3", "pink3", "plum3", "violet", "light_goldenrod3",
  "tan", "misty_rose3", "thistle3", "plum2", "khaki3", "light_goldenrod2", "light_yellow3",
  "grey84", "gray84", "light_steel_blue1", "yellow2", "dark_olive_green1", "honeydew2",
  "light_cyan1", "red1", "deep_pink2", "deep_pink1", "magenta1", "orange_red1", "indian_red1",
  "hot_pink", "dark_orange", "salmon1", "light_coral", "pale_violet_red1", "orchid2", "orchid1",
  "orange1", "sandy_brown", "light_salmon1", "light_pink1", "pink1", "plum1", "gold1",
  "navajo_white1", "misty_rose1", "thistle1", "yellow1", "light_goldenrod1", "khaki1", "wheat1",
  "cornsilk1", "grey100", "gray100", "grey3", "gray3", "grey7", "gray7", "grey11", "gray11",
  "grey15", "gray15", "grey19", "gray19", "grey23", "gray23", "grey27", "gray27", "grey30",
  "gray30", "grey35", "gray35", "grey39", "gray39", "grey42", "gray42", "grey46", "gray46",
  "grey50", "gray50", "grey54", "gray54", "grey58", "gray58", "grey62", "gray62", "grey66",
  "gray66", "grey70", "gray70", "grey74", "gray74", "grey78", "gray78", "grey82", "gray82",
  "grey85", "gray85", "grey89", "gray89", "grey93", "gray93"]

/-- Why words make no style. -/
inductive StyleFault where
  /-- A word means nothing where it stands. -/
  | unreadable
  /-- A part of a colour is no number. -/
  | badNumber
deriving DecidableEq, Repr

/-- A digit of a number in base sixteen, in lower case. -/
def isHexDigit (c : Char) : Bool :=
  Text.isAsciiDigit c || (0x61 ≤ c.toNat && c.toNat ≤ 0x66)

/-- What stands between an opening and a closing text that enclose it. -/
def enclosedIn? (opening closing text : List Char) : Option (List Char) :=
  if opening.isPrefixOf text && closing.isSuffixOf text &&
      opening.length + closing.length ≤ text.length then
    some ((text.drop opening.length).take (text.length - opening.length - closing.length))
  else none

/-- Whether the number of a colour is one. -/
def isColourNumber (digits : List Char) : Bool :=
  !digits.isEmpty && digits.length ≤ 3 && digits.all Text.isAsciiDigit &&
    Text.ofDigits digits ≤ 255

/-- What is wrong with the parts of a colour, if anything is. -/
def partsFault? (parts : List (List Char)) : Option StyleFault :=
  if parts.length != 3 then some .unreadable
  else if parts.any fun p => p.isEmpty || Number.maxDigits < p.length then some .badNumber
  else if parts.all fun p => Text.ofDigits p ≤ 255 then none
  else some .unreadable

/-- Whether digits and commas can be the parts of a colour. -/
def areParts (text : List Char) : Bool :=
  !text.isEmpty && text.all fun c => c = ',' || Text.isDigit c

/-- What is wrong with a colour in lower case, if anything is. -/
def colourFault? (word : List Char) : Option StyleFault :=
  if colourNames.contains (String.ofList word) then none
  else match word with
    | '#' :: digits =>
      if digits.length = 6 && digits.all isHexDigit then none else some .unreadable
    | _ => match enclosedIn? "color(".toList [')'] word, enclosedIn? "rgb(".toList [')'] word with
      | some digits, _ => if isColourNumber digits then none else some .unreadable
      | _, some parts =>
        if areParts parts then partsFault? (Text.splitAt ',' parts) else some .unreadable
      | _, _ => some .unreadable

/-- The colour that a word is, in any case. -/
def readColour (word : List Char) : Except StyleFault String :=
  match colourFault? (Text.lower word) with
  | some fault => .error fault
  | none => .ok (String.ofList (Text.lower word))

/-! ## 2. Styles -/

/-- How text is shown. -/
structure Style where
  /-- The effects that are given and those that are taken away. -/
  effects : List (Effect × Bool)
  colour : Option String
  background : Option String
  link : Option String

namespace Style

/-- The style that says nothing. -/
def plain : Style := ⟨[], none, none, none⟩

/-- The words that say something about an effect. -/
def effectWords (s : Style) (e : Effect) : List String :=
  match s.effects.lookup e with
  | some true => [e.name]
  | some false => ["not", e.name]
  | none => []

/-- The style written out. -/
def text (s : Style) : String :=
  let said := Effect.all.flatMap s.effectWords ++ s.colour.toList ++
    (s.background.map fun c => ["on", c]).getD [] ++ (s.link.map fun l => ["link", l]).getD []
  if said.isEmpty then "none" else String.intercalate " " said

/-- Reads words, after those that made the style `s`. -/
def readFrom (s : Style) : List (List Char) → Except StyleFault Style
  | [] => .ok s
  | first :: more =>
    let word := String.ofList (Text.lower first)
    if word = "on" then
      match more with
      | [] => .error .unreadable
      | second :: rest => match readColour second with
        | .ok colour => readFrom { s with background := some colour } rest
        | .error fault => .error fault
    else if word = "not" then
      match more with
      | [] => .error .unreadable
      | second :: rest => match Effect.ofWord? (String.ofList second) with
        | some e => readFrom { s with effects := (e, false) :: s.effects } rest
        | none => .error .unreadable
    else if word = "link" then
      match more with
      | [] => .error .unreadable
      | second :: rest => readFrom { s with link := some (String.ofList second) } rest
    else match Effect.ofWord? word with
      | some e => readFrom { s with effects := (e, true) :: s.effects } more
      | none => match readColour first with
        | .ok colour => readFrom { s with colour := some colour } more
        | .error fault => .error fault

/-- Reads a style. -/
def read (definition : List Char) : Except StyleFault Style :=
  match Text.words definition with
  | [only] => if String.ofList only = "none" then .ok plain else readFrom plain [only]
  | several => readFrom plain several

end Style

/-- The name by which tags that open and close a style are matched. -/
def styleName (definition : List Char) : Except StyleFault String :=
  match Style.read definition with
  | .ok s => .ok s.text
  | .error .unreadable => .ok (String.ofList (Text.lower (Text.trim definition)))
  | .error fault => .error fault

end Marginalia.Console

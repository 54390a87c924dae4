import Marginalia.Console.EmojiNames
import Marginalia.Text.Blank
import Marginalia.Text.Case

/-!
# Emoji codes

A name between two colons stands for an emoji.

* a code runs from a colon to the next one, with no blank in between. A hyphen and the word `emoji`
  or `text` at its end ask for a form of the emoji; what stands before them is the name, which is
  compared in lower case;
* a code whose name stands for nothing is text as it is, and its second colon opens no other code.
-/

namespace Marginalia.Console

/-! ## 1. Names -/

/-- Words taken two by two. -/
def pairUp : List (List Char) → List (List Char × List Char)
  | name :: emoji :: more => (name, emoji) :: pairUp more
  | _ => []

/-- The emoji with their names. -/
def emojiNames : List (List Char × List Char) := pairUp (Text.words emojiWords.toList)

/-- The emoji of a name. -/
def emoji? (name : List Char) : Option (List Char) := emojiNames.lookup (Text.lower name)

/-! ## 2. Codes -/

/-- The endings of a code that ask for a form, with the character that gives the form. -/
def emojiForms : List (List Char × Char) :=
  [("-emoji".toList, '\uFE0F'), ("-text".toList, '\uFE0E')]

/-- What a code stands for, given what is between its colons. -/
def emojiOfCode? (code : List Char) : Option (List Char) :=
  match emojiForms.find? fun form => form.1.isSuffixOf code with
  | some (ending, form) =>
    (emoji? (code.take (code.length - ending.length))).map (· ++ [form])
  | none => emoji? code

/-- What stands between the colon at the front of a text, which is left out, and the next one. -/
def codeBody? : List Char → Option (List Char)
  | [] => none
  | c :: rest =>
    if c = ':' then some []
    else if Text.isBlank c then none
    else (codeBody? rest).map (c :: ·)

/-- A text with the codes replaced. The first `inside` characters belong to a code that has been
    dealt with already. -/
def replaceCodesFrom (inside : Nat) : List Char → List Char
  | [] => []
  | c :: rest =>
    match inside with
    | more + 1 => replaceCodesFrom more rest
    | 0 =>
      if c = ':' then
        match codeBody? rest with
        | some code =>
          (emojiOfCode? code).getD (':' :: code ++ [':']) ++
            replaceCodesFrom (code.length + 1) rest
        | none => c :: replaceCodesFrom 0 rest
      else c :: replaceCodesFrom 0 rest

/-- A text with its emoji codes replaced by the emoji. -/
def replaceCodes (text : List Char) : List Char := replaceCodesFrom 0 text

end Marginalia.Console

import Marginalia.Php.Literal

/-!
# Lexemes of PHP sources

A source is text with pieces of code in it. This file cuts it into lexemes, in one pass that looks
at little more than the text itself; what a word means where it stands is decided later.

* outside of code everything up to the next opening tag is one lexeme, blanks in front of it not
  included;
* comments are lexemes too, so that between lexemes there are only blanks, which every lexeme
  keeps (`Lexeme.gap`);
* a shell command is cut into what it consists of: its quotes, its text and the code in it
  (`Region.shell`);
* a point in front of digits belongs to them only where a value can start.
-/

namespace Marginalia.Php

/-! ## 1. Words and signs -/

/-- The words that are never names. -/
def reservedWords : List String :=
  ["namespace", "use", "class", "abstract", "extends", "public", "protected", "private", "static",
    "var", "function", "as", "final", "readonly", "const", "return", "echo", "if", "foreach",
    "while", "do", "for", "interface", "trait", "case", "fn", "new", "declare", "implements",
    "try", "catch", "switch", "break", "continue", "default", "throw", "global", "unset", "print",
    "exit", "else", "elseif", "endif", "endwhile", "endfor", "endforeach", "endswitch",
    "enddeclare", "finally", "include", "require", "include_once", "require_once", "instanceof",
    "insteadof", "clone", "yield", "goto", "and", "or", "xor"]

/-- A word in front, without separators. -/
def simpleWord (cs : List Char) : List Char := cs.takeWhile isWordPart

/-- The two words in front that hand over to another generator, with the blanks between them. -/
def delegation? (cs : List Char) : Option (List Char) :=
  let blanks := (cs.drop 5).takeWhile isPlainBlank
  let rest := cs.drop (5 + blanks.length)
  if startsWith "yield" cs && !blanks.isEmpty && startsWith "from" rest &&
      !((rest.drop 4).head?.any isWordPart) then
    some (cs.take (5 + blanks.length + 4))
  else none

/-- The signs of more than one character, the longest first. -/
def longSigns : List String :=
  ["<=>", "**=", "...", "<<=", ">>=", "===", "!==", "??=", "?->", "++", "--", "->", "=>", "::",
    "==", "!=", "<>", "<=", ">=", "&&", "||", "|>", "??", "+=", "-=", "*=", "/=", ".=", "%=", "&=",
    "|=", "^=", "<<", ">>", "**", "#["]

/-- A sign in front. -/
def sign (cs : List Char) : List Char :=
  match longSigns.find? fun s => s.toList.isPrefixOf cs with
  | some s => s.toList
  | none => cs.take 1

/-! ## 2. Lexemes -/

/-- The kinds of lexemes. -/
inductive LexemeKind where
  /-- Text outside of code. -/
  | outside
  /-- A tag that opens code. -/
  | openTag
  /-- The tag that closes code. -/
  | closeTag
  | comment
  /-- A string, a heredoc, a number, or an escape in a shell command. -/
  | literal
  /-- Text of a shell command. -/
  | shellText
  /-- A variable with its sigil. -/
  | variableName
  | word
  /-- Code in the place of a name. -/
  | name
  | sign
deriving DecidableEq, Repr

/-- A lexeme: its kind, the blanks in front of it, its text and the line it starts on. -/
structure Lexeme where
  kind : LexemeKind
  gap : List Char
  text : List Char
  line : Nat
deriving DecidableEq, Repr

/-- Whether a lexeme is a given word, in any case. -/
def Lexeme.isWord (l : Lexeme) (w : String) : Bool :=
  l.kind = .word && Text.lowercase (String.ofList l.text) == w

/-- Whether a lexeme is one of several words, in any case. -/
def Lexeme.isWordOf (l : Lexeme) (ws : List String) : Bool :=
  l.kind = .word && ws.contains (Text.lowercase (String.ofList l.text))

/-- Whether a lexeme is a given sign. -/
def Lexeme.isSign (l : Lexeme) (s : String) : Bool := l.kind = .sign && l.text == s.toList

/-- The first lexeme that is no comment. -/
def firstCode? (ls : List Lexeme) : Option Lexeme := ls.find? (·.kind != .comment)

/-- Whether a value has ended with the lexemes of code read so far, latest first. -/
def endsValue (before : List Lexeme) : Bool :=
  match before with
  | [] => false
  | l :: earlier => match l.kind with
    | .variableName | .literal | .shellText | .name => true
    | .sign => l.isSign ")" || l.isSign "]" || l.isSign "\x7d" || l.isSign "\x60"
    | .word => !l.isWordOf reservedWords || earlier.head?.any fun e =>
        e.isSign "->" || e.isSign "?->" || e.isSign "::"
    | _ => false

/-! ## 3. Regions -/

/-- What comes next in a shell command. -/
inductive ShellPart where
  | text
  /-- What may follow a variable. -/
  | afterVariable
  /-- The name of a member. -/
  | member
  /-- The brace behind a dollar sign. -/
  | brace
deriving DecidableEq, Repr

/-- What is read at a point of a source. -/
inductive Region where
  | outside
  /-- Code, with the number of braces that are open in it. -/
  | code (braces : Nat)
  | shell (part : ShellPart)
  /-- The index behind a variable in a shell command. -/
  | index
deriving DecidableEq, Repr

/-- The opening tag in front. -/
def openTag (cs : List Char) : List Char :=
  if startsWith "<?php" cs then cs.take 5
  else if startsWith "<?=" cs then cs.take 3
  else cs.take 2

/-- Everything up to the next opening tag. -/
def beforeTag : List Char → List Char
  | [] => []
  | '<' :: '?' :: _ => []
  | c :: rest => c :: beforeTag rest

/-- The text outside of code, up to the next opening tag. Blanks at its end do not belong to it if
    they follow an angle bracket. -/
def outsideText (cs : List Char) : List Char :=
  let text := beforeTag cs
  let trimmed := Text.dropRight isPlainBlank text
  if trimmed.getLast? = some '<' then trimmed else text

/-- The lexeme of code in front of a text that starts with no gap, behind the lexemes `before`. -/
def codeLexeme (before : List Lexeme) : List Char → LexemeKind × List Char
  | [] => (.sign, [])
  | c :: rest =>
    let cs := c :: rest
    let next := rest.head?
    if c = '?' && next = some '>' then (.closeTag, ['?', '>'])
    else if c = '/' && next = some '*' then
      (.comment, ['/', '*'] ++ through ['*', '/'] (rest.drop 1))
    else if (c = '/' && next = some '/') || (c = '#' && next != some '[') then
      (.comment, c :: lineComment false rest)
    else if c = '\x27' then (.literal, c :: stringTail [.plain] false rest)
    else if c = '"' then (.literal, c :: stringTail [.template c] false rest)
    else if (c = 'b' || c = 'B') && next = some '\x27' then
      (.literal, c :: '\x27' :: stringTail [.plain] false (rest.drop 1))
    else if (c = 'b' || c = 'B') && next = some '"' then
      (.literal, c :: '"' :: stringTail [.template '"'] false (rest.drop 1))
    else if c = '$' && next.any isWordStart then (.variableName, c :: simpleWord rest)
    else if c.isDigit || (c = '.' && next.any Char.isDigit && !endsValue before) then
      (.literal, number cs)
    else if isWordStart c then match delegation? cs with
      | some text => (.sign, text)
      | none => (.word, simpleWord cs)
    else match heredoc? cs with
      | some text => (.literal, text)
      | none => (.sign, sign cs)

/-- The length of the escape in front, a backslash being left out; none if there is none. -/
def escapeLength? : List Char → Option Nat
  | [] => none
  | c :: rest =>
    if ['n', 'r', 't', 'v', 'e', 'f', '\\', '$', '"', '\x60'].contains c then some 1
    else if c = 'x' then
      let digits := (rest.take 2).takeWhile isHexDigit
      if digits.isEmpty then none else some (1 + digits.length)
    else if c = 'u' then
      let digits := (rest.drop 1).takeWhile isHexDigit
      if rest.head? = some '\x7b' && !digits.isEmpty &&
          (rest.drop (1 + digits.length)).head? = some '\x7d' then some (3 + digits.length)
      else none
    else
      let digits := ((c :: rest).take 3).takeWhile isOctalDigit
      if digits.isEmpty then none else some digits.length

/-- Whether the text of a shell command ends in front of a character. -/
def endsShellText (c : Char) (rest : List Char) : Bool :=
  c = '\x60' || (c = '\\' && (escapeLength? rest).isSome) ||
    (c = '$' && rest.head?.any fun d => isWordStart d || d = '\x7b') ||
    (c = '\x7b' && rest.head? = some '$')

/-- The text of a shell command up to its next part. A backslash takes a brace with it. -/
def shellText (taken : Bool) : List Char → List Char
  | [] => []
  | c :: rest =>
    if !taken && endsShellText c rest then []
    else c :: shellText (!taken && c = '\\' && rest.head? = some '\x7b') rest

/-- The lexeme in front inside of a shell command, and the regions behind it. -/
def shellLexeme (part : ShellPart) (outer : List Region) :
    List Char → LexemeKind × List Char × List Region
  | [] => (.literal, [], [])
  | c :: rest =>
    let next := rest.head?
    let goOn := fun part => Region.shell part :: outer
    if c = '\x60' then (.sign, [c], outer)
    else if c = '\x7b' && (next = some '$' || part = .brace) then
      (.sign, [c], .code 0 :: goOn .text)
    else if c = '$' && next = some '\x7b' then (.sign, [c], goOn .brace)
    else if c = '$' && next.any isWordStart then
      (.variableName, c :: simpleWord rest, goOn .afterVariable)
    else if part = .member && isWordStart c then (.word, simpleWord (c :: rest), goOn .text)
    else if part = .afterVariable && c = '[' then (.sign, [c], .index :: goOn .text)
    else if part = .afterVariable && c = '-' && next = some '>' &&
        (rest.drop 1).head?.any isWordStart then
      (.sign, ['-', '>'], goOn .member)
    else match c, escapeLength? rest with
      | '\\', some length => (.literal, c :: rest.take length, goOn .text)
      | _, _ => (.shellText, c :: shellText (c = '\\' && next = some '\x7b') rest, goOn .text)

/-- The lexeme in front inside of an index, and the regions behind it. -/
def indexLexeme (outer : List Region) : List Char → LexemeKind × List Char × List Region
  | [] => (.sign, [], [])
  | c :: rest =>
    if c = ']' then (.sign, [c], outer)
    else if c = '$' && rest.head?.any isWordStart then
      (.variableName, c :: simpleWord rest, .index :: outer)
    else if c.isDigit then (.literal, wholeNumber (c :: rest), .index :: outer)
    else if isWordStart c then (.word, simpleWord (c :: rest), .index :: outer)
    else (.sign, [c], .index :: outer)

/-- The regions behind a lexeme of code. -/
def regionsAfter (braces : Nat) (outer : List Region) (kind : LexemeKind) (text : List Char) :
    List Region :=
  if kind = .closeTag then [.outside]
  else if kind = .sign && text = ['\x60'] then .shell .text :: .code braces :: outer
  else if kind = .sign && text = ['\x7b'] then .code (braces + 1) :: outer
  else if kind = .sign && text = ['\x7d'] then
    if braces = 0 && !outer.isEmpty then outer else .code (braces - 1) :: outer
  else .code braces :: outer

/-- The lexeme in front and the regions behind it; none if there is a blank in front that belongs
    to no lexeme. -/
def lexemeAt? (regions : List Region) (before : List Lexeme) (cs : List Char) :
    Option (LexemeKind × List Char × List Region) :=
  match regions with
  | .code braces :: outer =>
    if cs.head?.any isGap then none
    else
      let (kind, text) := codeLexeme before cs
      some (kind, text, regionsAfter braces outer kind text)
  | .shell part :: outer => some (shellLexeme part outer cs)
  | .index :: outer => some (indexLexeme outer cs)
  | _ =>
    if startsWith "<?" cs then some (.openTag, openTag cs, [.code 0])
    else if cs.head?.any isPlainBlank then none
    else some (.outside, outsideText cs, [.outside])

/-! ## 4. Sources -/

/-- What has to be known of the lexemes before the next one: the last two that are no comments,
    latest first. -/
def remember (before : List Lexeme) (l : Lexeme) : List Lexeme :=
  if l.kind = .comment then before else l :: before.take 1

/-- The lexemes of a text that starts on `line`, behind the lexemes `before` and the blanks `gap`,
    latest first; the first `inside` characters belong to a lexeme that has been cut already. -/
def lexemesFrom (inside : Nat) (regions : List Region) (before : List Lexeme) (gap : List Char)
    (line : Nat) : List Char → List Lexeme
  | [] => []
  | c :: rest =>
    let after := if c = '\n' then line + 1 else line
    match inside with
    | more + 1 => lexemesFrom more regions before gap after rest
    | 0 => match lexemeAt? regions before (c :: rest) with
      | none => lexemesFrom 0 regions before (c :: gap) after rest
      | some (kind, text, regions) =>
        let l : Lexeme := ⟨kind, gap.reverse, text, line⟩
        l :: lexemesFrom (text.length - 1) regions (remember before l) [] after rest

/-- The lexemes of a source. -/
def lexemes (text : List Char) : List Lexeme := lexemesFrom 0 [.outside] [] [] 1 text

end Marginalia.Php

import Marginalia.Php.Lexeme
import Marginalia.Php.Tree

/-!
# What a word means where it stands

A reserved word is a keyword, except

* behind the word that opens a function, behind the signs for members and wherever else only a
  name can stand, where it is a name;
* where a type is written, for all words but those that modify what the type belongs to;
* and for a few words that are reserved in some places only.

What has to be known of the code before a word is its `Place`. It follows the brackets that are
open, because a type can be written only directly between some of them.
-/

namespace Marginalia.Php

/-! ## 1. Places -/

/-- Where a type is written. -/
inductive TypeSpot where
  /-- In front of a parameter. -/
  | parameter
  /-- Behind the parameters of a function. -/
  | result
  /-- In front of a property or a constant of a class. -/
  | member
deriving DecidableEq, Repr

/-- What a pair of brackets holds. -/
inductive Bracket where
  /-- The parameters of a function. -/
  | parameters
  /-- Part of a type. -/
  | type
  /-- What a statement or a value that follows is about: a condition, or the type of a cast. -/
  | head
  /-- Any other part of a value. -/
  | value
  /-- Attributes of a declaration. -/
  | attributes
  /-- Names that are imported together. -/
  | names
  /-- The members of a class. -/
  | members
  /-- The hooks of a property. -/
  | hooks
  /-- Statements. -/
  | block
deriving DecidableEq, Repr

/-- An open bracket, with what was known in front of it. -/
structure Frame where
  bracket : Bracket
  /-- The type around it. -/
  spot : Option TypeSpot
  /-- Whether the members of a class were to follow. -/
  awaitsMembers : Bool
deriving DecidableEq, Repr

/-- What is known of the code before a word. -/
structure Place where
  /-- The token right before. -/
  last : Option Token
  /-- The token before that. -/
  lastButOne : Option Token
  /-- The open brackets, innermost first. -/
  frames : List Frame
  /-- The bracket that the last token closes. -/
  closed : Option Bracket
  /-- Whether the last token opens a bracket where a value can start. -/
  opensValue : Bool
  /-- Whether the next parenthesis holds the parameters of a function. -/
  awaitsParameters : Bool
  /-- Whether the next brace holds the members of a class. -/
  awaitsMembers : Bool
  /-- Whether the statement or the head of the class lists names. -/
  inNames : Bool
  /-- Whether the default of a property or a parameter is written here. -/
  inDefault : Bool
  /-- The type that is written here. -/
  spot : Option TypeSpot

namespace Place

/-- The place at the start of a source. -/
def initial : Place := ⟨none, none, [], none, false, false, false, false, false, none⟩

/-- Whether the token right before satisfies a test. -/
def lastIs (p : Place) (test : Token → Bool) : Bool := p.last.any test

/-- Whether the token right before is a given sign. -/
def lastIsSign (p : Place) (s : String) : Bool := p.lastIs (·.isPunct s)

/-- Whether the innermost open bracket is of a kind. -/
def inside (p : Place) (b : Bracket) : Bool := p.frames.head?.any (·.bracket = b)

end Place

/-- Whether a token is one of several reserved words, and not a name. -/
def Token.isKeywordOf (t : Token) (ws : List String) : Bool :=
  t.kind != .ident && ws.contains (Text.lowercase t.text)

/-- The words that set the visibility of a member. -/
def visibilityWords : List String := ["public", "protected", "private"]

/-- The words that may stand in front of a parameter's type. -/
def parameterModifiers : List String := visibilityWords ++ ["readonly", "final"]

/-- The words that may stand in front of a member's type. -/
def memberModifiers : List String := parameterModifiers ++ ["var", "static", "abstract"]

/-- The words with a condition behind them, after which a statement follows. -/
def conditionWords : List String :=
  ["if", "elseif", "while", "for", "foreach", "switch", "catch", "declare"]

/-- The words with parentheses of their own, and those that are values. -/
def selfContainedWords : List String :=
  conditionWords ++ ["array", "list", "match", "exit", "unset", "null", "self", "parent", "static",
    "function", "fn", "use"]

namespace Place

/-- Whether a value can start here. -/
def awaitsValue (p : Place) : Bool :=
  match p.last with
  | none => true
  | some t => match t.kind with
    | .ident | .varName => false
    | .other => ["<?php", "<?=", "<?"].contains (Text.lowercase t.text)
    | .punct =>
      if t.text == ")" || t.text == "]" || t.text == "\x7d" then
        p.closed.any fun b => b != .value && b != .parameters && b != .type
      else t.text != "\x60"
    | _ => !t.isKeywordOf selfContainedWords

/-- Whether a statement can start here. -/
def awaitsStatement (p : Place) : Bool :=
  match p.last with
  | none => true
  | some t =>
    t.isPunct ";" || t.isPunct ":" || t.isKeywordOf ["else", "do"] ||
      (t.isPunct "\x7b" && p.inside .block) ||
      ((t.isPunct ")" || t.isPunct "\x7d" || t.kind = .other) && p.awaitsValue)

/-- The brackets that a parenthesis opens. -/
def roundBracket (p : Place) : Bracket :=
  if p.awaitsParameters then .parameters
  else if p.spot.isSome then .type
  else if p.lastIs (·.isKeywordOf conditionWords) then .head
  else .value

/-- The brackets that a brace opens. -/
def curlyBracket (p : Place) : Bracket :=
  if p.awaitsMembers then .members
  else if p.lastIsSign "\\" then .names
  else if p.lastIsSign "->" || p.lastIsSign "?->" || p.lastIsSign "::" || p.lastIsSign "$" then
    .value
  else if (p.inside .members || p.inside .parameters) &&
      (p.inDefault || p.lastIs (·.kind = .varName)) then .hooks
  else .block

/-- Whether the parameters of a function end right before. -/
def afterParameters (p : Place) : Bool := p.closed = some .parameters

/-- The place behind a token that is no bracket. -/
def moved (p : Place) : Place := { p with closed := none, opensValue := false }

/-- The place inside of a bracket. -/
def enter (p : Place) (b : Bracket) (spot : Option TypeSpot) : Place :=
  { p with
    frames := ⟨b, p.spot, p.awaitsMembers⟩ :: p.frames
    closed := none
    opensValue := p.awaitsValue
    awaitsParameters := false
    awaitsMembers := false
    inNames := b = .names
    inDefault := false
    spot := spot }

/-- The place behind a bracket. -/
def leave (p : Place) : Place :=
  match p.frames with
  | [] => p.moved
  | f :: outer =>
    { p.moved with
      frames := outer
      closed := some f.bracket
      awaitsParameters := false
      awaitsMembers := f.awaitsMembers && f.bracket != .members
      inNames := false
      spot := if f.bracket = .type || f.bracket = .attributes then f.spot else none }

/-- The place behind the end of a statement. -/
def ended (p : Place) : Place :=
  { p.moved with
    awaitsParameters := false
    awaitsMembers := false
    inNames := false
    inDefault := false
    spot := none }

/-- The place behind a sign. -/
def afterSign (p : Place) (s : String) : Place :=
  if s == "(" then
    p.enter p.roundBracket (if p.awaitsParameters then some .parameter else p.spot)
  else if s == "[" then p.enter .value none
  else if s == "#[" then p.enter .attributes none
  else if s == "\x7b" then p.enter p.curlyBracket none
  else if s == ")" || s == "]" || s == "\x7d" then p.leave
  else if s == "," then
    { p.moved with
      inDefault := false
      spot := if p.inside .parameters then some .parameter else none }
  else if s == ":" then
    { p.moved with spot := if p.afterParameters then some .result else p.spot }
  else if s == "=" then
    { p.moved with inDefault := p.inside .members || p.inside .parameters, spot := none }
  else if s == "=>" then { p.moved with awaitsParameters := false, spot := none }
  else if s == ";" then p.ended
  else p.moved

/-- The place behind a word. The variables that a closure takes with it stand in parentheses behind
    its parameters, and count as parameters too. -/
def afterWord (p : Place) (t : Token) : Place :=
  if t.isKeywordOf ["function", "fn"] then
    { p.moved with awaitsParameters := !p.inNames, spot := none }
  else if t.isKeywordOf ["use"] then
    { p.moved with
      awaitsParameters := p.afterParameters
      inNames := !p.afterParameters
      spot := none }
  else if t.isKeywordOf ["extends", "implements", "insteadof"] then { p.moved with inNames := true }
  else if t.isKeywordOf ["class", "interface", "trait", "enum"] then
    { p.moved with awaitsMembers := true, spot := none }
  else if t.isKeywordOf ("const" :: memberModifiers) && p.inside .members then
    { p.moved with spot := some .member }
  else if t.kind = .ident && p.inside .hooks && ["get", "set"].contains (Text.lowercase t.text) then
    { p.moved with awaitsParameters := true }
  else p.moved

/-- The place behind a cast type: what the parenthesis around it is about follows. -/
def afterCast (p : Place) : Place :=
  match p.frames with
  | f :: outer => { p.moved with frames := { f with bracket := .head } :: outer }
  | [] => p.moved

/-- The place behind a token, which may be a cast type. Doc-comments count for nothing here. -/
def after (p : Place) (isCast : Bool) (t : Token) : Place :=
  let next := match t.kind with
    | .punct => p.afterSign t.text
    | .varName => { p.moved with spot := none }
    | .other =>
      if isCast then p.afterCast else if t.text == "?>" then p.ended else p.moved
    | _ => p.afterWord t
  { next with last := some t, lastButOne := p.last }

end Place

/-! ## 2. Words -/

/-- The type of a leaf. -/
structure LeafType where
  name : String
  /-- Whether it is a name of the grammar, and not a text. -/
  named : Bool
deriving DecidableEq

/-- The type of a word that is a name. -/
def LeafType.word : LeafType := ⟨"name", true⟩

/-- The type of a keyword, given in lower case. -/
def LeafType.keyword (w : String) : LeafType := ⟨w, false⟩

/-- The types that a value can be cast to. -/
def castTypes : List String :=
  ["array", "binary", "bool", "boolean", "double", "int", "integer", "float", "object", "string",
    "unset", "real"]

/-- What a declaration can be made about how a file is run. -/
def directives : List String := ["strict_types", "ticks", "encoding"]

namespace Place

/-- Whether any word is a name here. -/
def awaitsName (p : Place) : Bool :=
  p.lastIs (·.isKeywordOf ["function", "const", "namespace"]) || p.lastIsSign "->" ||
    p.lastIsSign "?->" || p.lastIsSign "::" || p.lastIsSign "\\" ||
    (p.lastIsSign "&" && p.lastButOne.any (·.isKeywordOf ["function"])) ||
    (p.lastIs (·.isKeywordOf ["case"]) && p.inside .members)

/-- Whether a name of a list starts here; two words can say what it is the name of. -/
def awaitsListed (p : Place) (w : String) : Bool :=
  p.inNames && w != "function" && w != "const" && w != "namespace" &&
    (p.lastIsSign "," || p.lastIsSign "\x7b" ||
      p.lastIs (·.isKeywordOf ["use", "extends", "implements", "insteadof", "as"]))

/-- Whether a word in parentheses here, which `next` follows, is a cast. -/
def isCast (p : Place) (w : String) (next : Option Lexeme) : Bool :=
  p.opensValue && p.lastIsSign "(" && p.inside .value && castTypes.contains w &&
    next.any (·.isSign ")")

/-- Whether the operation in parentheses behind a visibility stands here. -/
def isVisibilityScope (p : Place) (w : String) (next : Option Lexeme) : Bool :=
  w == "set" && p.lastIsSign "(" && p.lastButOne.any (·.isKeywordOf visibilityWords) &&
    next.any (·.isSign ")")

/-- Whether the name of an argument stands here. -/
def isArgumentName (p : Place) (next : Option Lexeme) : Bool :=
  p.inside .value && (p.lastIsSign "(" || p.lastIsSign ",") && next.any (·.isSign ":")

/-- The type of a word where a type is written, given its text and the text in lower case. One word
    can only be the whole of a result's type. -/
def typeWordType (p : Place) (spot : TypeSpot) (text w : String) : LeafType :=
  match spot with
  | .result => if text == "never" && p.lastIsSign ":" then ⟨"bottom_type", true⟩ else .word
  | .parameter => if parameterModifiers.contains w then .keyword w else .word
  | .member =>
    if (memberModifiers ++ ["function", "const", "use", "case", "class"]).contains w then
      .keyword w
    else .word

/-- The type of a word in values and statements, given its text and the text in lower case. -/
def plainWordType (p : Place) (text w : String) (next : Option Lexeme) : LeafType :=
  let nextIs := fun s => next.any (·.isSign s)
  let inReference := p.lastIs (·.isKeywordOf ["new", "instanceof"])
  if w == "static" then (if inReference then .word else .keyword w)
  else if text == "self" || text == "parent" then
    (if nextIs "::" && !inReference then .keyword text else .word)
  else if inReference && nextIs "\\" && w != "namespace" then .word
  else if p.isCast w next then ⟨"cast_type", true⟩
  else if (keywordKinds.lookup w).isSome then .keyword w
  else if w == "true" || w == "false" then ⟨"boolean", true⟩
  else if w == "null" then ⟨w, true⟩
  else if p.lastIsSign "(" && p.lastButOne.any (·.isKeywordOf ["declare"]) then
    (if directives.contains w then .keyword w else .word)
  else if w == "array" || w == "list" || w == "match" then
    (if nextIs "(" then .keyword w else .word)
  else if w == "enum" then
    (if next.any fun n => n.kind = .word && !n.isWordOf ["extends", "implements", "as"] then
      .keyword w else .word)
  else if w == "exit" then (if p.awaitsStatement then .keyword w else .word)
  else if reservedWords.contains w then .keyword w
  else .word

/-- The type of a word that `next` follows. -/
def wordType (p : Place) (text : String) (next : Option Lexeme) : LeafType :=
  let w := Text.lowercase text
  if p.awaitsName || p.awaitsListed w || p.isArgumentName next then .word
  else if p.isVisibilityScope w next then ⟨"operation", true⟩
  else match p.spot with
    | some spot => p.typeWordType spot text w
    | none => p.plainWordType text w next

end Place

end Marginalia.Php

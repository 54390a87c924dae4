import Marginalia.Php.Token
import Marginalia.Text.Blank
import Marginalia.Text.Case
import Marginalia.Text.Utf8
import Marginalia.Text.Word

/-!
# Syntax trees and their tokens

A parser makes a tree of a source. A node knows its type and the bytes that it spans, and the text
of those is read when it is needed. The tokens of a source are what the leaves of its tree stand
for, from left to right:

* names, comments, variables and strings stand for one token each, whatever they are made of
  (`wholeTypes`);
* the leaf of a keyword has the keyword as its type, in any case, or is a modifier; what has no name
  in the grammar and is no word is a sign (`kindOf?`);
* what consists of blanks only has no token, and neither has a plain comment (`Node.token?`).
-/

namespace Marginalia.Php

/-- A node of a syntax tree. -/
structure Node where
  type : String
  /-- Whether the type is a name of the grammar; otherwise it is a text. -/
  named : Bool
  /-- The number of bytes in front of the node. -/
  start : Nat
  /-- The number of bytes up to its end. -/
  stop : Nat
  /-- The number of lines above the one it starts on. -/
  row : Nat
  children : List Node

/-! ## 1. Kinds -/

/-- The types of names. -/
def nameTypes : List String := ["name", "qualified_name", "namespace_name", "primitive_type"]

/-- The types of nodes that stand for one token, with all that is below them. -/
def wholeTypes : List String :=
  nameTypes ++ ["comment", "variable_name", "string", "encapsed_string", "heredoc", "nowdoc"]

/-- The keywords with kinds of their own. -/
def keywordKinds : List (String × TokenKind) :=
  [("namespace", .kwNamespace), ("use", .kwUse), ("class", .kwClass), ("abstract", .kwAbstract),
    ("extends", .kwExtends), ("public", .kwPublic), ("protected", .kwProtected),
    ("private", .kwPrivate), ("static", .kwStatic), ("var", .kwVar), ("function", .kwFunction),
    ("as", .kwAs)]

/-- Whether a text is a word of letters. -/
def isLetters (text : String) : Bool := !text.isEmpty && text.toList.all Text.isLetter

/-- Whether a type is that of a modifier. -/
def isModifierType (type : String) : Bool := "_modifier".toList.isSuffixOf type.toList

/-- The kind of a word in lower case, if it is a keyword. -/
def keywordKind? (w : String) : Option TokenKind :=
  (keywordKinds.lookup w).or (if isLetters w then some .keyword else none)

/-- The kind of the token that a node stands for, given the text of the node; none if it stands for
    no token. -/
def kindOf? (type : String) (named : Bool) (text : String) : Option TokenKind :=
  let w := Text.lowercase text
  if type == "comment" then
    if ['/', '*', '*'].isPrefixOf text.toList then some .docComment else none
  else if type == "variable_name" then some .varName
  else if nameTypes.contains type then some .ident
  else
    let keyword := if Text.lowercase type == w || isModifierType type then keywordKind? w else none
    some (keyword.getD (if named then .other else .punct))

/-! ## 2. Tokens -/

/-- The bytes of a source from a place to another one. -/
def slice (source : List UInt8) (start stop : Nat) : List UInt8 :=
  (source.drop start).take (stop - start)

namespace Node

variable (source : List UInt8)

/-- The text that a node spans. -/
def text (n : Node) : List Char := Text.decode (slice source n.start n.stop)

/-- The token that a node stands for as a whole. -/
def token? (n : Node) : Option Token :=
  let text := n.text source
  if text.all Text.isBlank then none
  else (kindOf? n.type n.named (String.ofList text)).map fun kind =>
    ⟨kind, String.ofList text, n.row + 1⟩

/-- Whether a node stands for one token. -/
def isWhole (n : Node) : Bool := n.children.isEmpty || wholeTypes.contains n.type

mutual

/-- The tokens of a tree. -/
def tokens : Node → List Token
  | n@⟨_, _, _, _, _, children⟩ =>
    if n.isWhole then (n.token? source).toList else tokensOf children

/-- The tokens of trees in a row. -/
def tokensOf : List Node → List Token
  | [] => []
  | n :: more => n.tokens ++ tokensOf more

end

end Node

end Marginalia.Php

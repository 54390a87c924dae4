/-!
# Tokens of PHP sources

Of a PHP source only a handful of keywords matter: those that open or modify declarations, name
namespaces and import names. They have kinds of their own; all other reserved words are one kind.
-/

namespace Marginalia.Php

/-- The kinds of tokens. -/
inductive TokenKind where
  | docComment
  | kwNamespace
  | kwUse
  | kwClass
  | kwAbstract
  | kwExtends
  | kwPublic
  | kwProtected
  | kwPrivate
  | kwStatic
  | kwVar
  | kwFunction
  | kwAs
  | ident
  | varName
  | keyword
  | punct
  | other
deriving DecidableEq, Repr

namespace TokenKind

/-- All kinds with their names. -/
def names : List (TokenKind × String) :=
  [(.docComment, "doc_comment"), (.kwNamespace, "namespace"), (.kwUse, "use"),
    (.kwClass, "class"), (.kwAbstract, "abstract"), (.kwExtends, "extends"),
    (.kwPublic, "public"), (.kwProtected, "protected"), (.kwPrivate, "private"),
    (.kwStatic, "static"), (.kwVar, "var"), (.kwFunction, "function"), (.kwAs, "as"),
    (.ident, "ident"), (.varName, "variable"), (.keyword, "keyword"), (.punct, "punct"),
    (.other, "other")]

/-- The name of a kind. -/
def name (k : TokenKind) : String := (names.lookup k).getD ""

/-- The kind of a name. -/
def ofName? (s : String) : Option TokenKind := (names.find? (·.2 == s)).map (·.1)

/-- The words that set the visibility of a member. -/
def isVisibility : TokenKind → Bool
  | .kwPublic | .kwProtected | .kwPrivate => true
  | _ => false

end TokenKind

/-- A token: its kind, its text and the line it starts on. -/
structure Token where
  kind : TokenKind
  text : String
  line : Nat
deriving DecidableEq, Repr

/-- Whether a token is a given sign. -/
def Token.isPunct (t : Token) (text : String) : Bool := t.kind = .punct && t.text == text

end Marginalia.Php

import Marginalia.Defaults
import Marginalia.Diagnostic
import Marginalia.Note.Fault
import Marginalia.Php.Token

/-!
# Doc-comments and the declarations behind them

One pass over the tokens of a source pairs each doc-comment with the class, property or method
that follows it. A comment is held until a declaration takes it or something else lets it go; the
scope is kept up to date on the way.

* the pass reads one token at a time, and what it has to remember is a `Mode`. Modes inside a
  declaration carry the comment that the declaration will take, so there always is one;
* a name, an import statement or a declaration that a token does not continue is over before that
  token, which is then read as ordinary material (`scan`);
* `step` says what one token does, `finish` what the end of the source does.
-/

namespace Marginalia.Php

/-! ## 1. Modes -/

/-- A comment that waits for its declaration. -/
structure Held where
  text : String
  line : Nat
deriving DecidableEq, Repr

/-- What the pass remembers between two tokens. -/
inductive Mode where
  /-- Ordinary material. -/
  | scanning (held : Option Held)
  /-- Behind the word that opens a class. -/
  | typeHeader (held : Option Held)
  /-- Behind the name of a class that takes a comment. -/
  | typeNamed (held : Held)
  /-- In the name of the parent of a class that takes a comment. -/
  | parentName (held : Held) (parts : List String)
  /-- Behind the modifiers of a member. -/
  | member (held : Held) (isStatic : Bool)
  /-- Behind the word `static` in front of a member. -/
  | staticMember (held : Held)
  /-- Behind the word that opens a function; the sign of a reference may have been read. -/
  | methodName (held : Held) (byReference : Bool)
  /-- In the name of a namespace. -/
  | namespaceName (held : Option Held) (parts : List String)
  /-- In an imported name; `group` is the start of the names in a group. -/
  | importName (held : Option Held) (group : String) (parts : List String)
  /-- Behind the word that gives an imported name its alias. -/
  | importAlias (held : Option Held) (group target : String)
  /-- Behind an imported name with its alias. -/
  | importTail (held : Option Held) (group target short : String)
  /-- Behind the end of a group of imported names. -/
  | groupEnd (held : Option Held)
deriving DecidableEq, Repr

/-- The comment that a mode holds. -/
def Mode.held : Mode → Option Held
  | .scanning h | .typeHeader h | .namespaceName h _ | .importName h _ _ | .importAlias h _ _
  | .importTail h _ _ _ | .groupEnd h => h
  | .typeNamed h | .parentName h _ | .member h _ | .staticMember h | .methodName h _ => some h

/-- A comment with its place, what it stands at and the aliases its annotations see. -/
structure Attachment where
  comment : String
  location : String
  target : Target
  aliases : Aliases

/-- The state of the pass. -/
structure Walk where
  scope : Scope
  mode : Mode

/-- The state at the start of a file. -/
def Walk.initial : Walk := ⟨.initial, .scanning none⟩

/-- What a token does: the next state and the comments that are let go. -/
abbrev Outcome := Walk × List Attachment

/-! ## 2. Letting comments go -/

/-- The place of a comment. -/
def Held.place (path : String) (h : Held) : String := path ++ " on line " ++ natText h.line

/-- The comment at a target, with what names the target in front of its place. -/
def Held.attach (path : String) (scope : Scope) (h : Held) (target : Target) (label : String) :
    Attachment :=
  ⟨h.text, located label (h.place path), target, scope.annotationImports.entries⟩

/-- The comment on its own. -/
def Held.unattached (path : String) (scope : Scope) (h : Held) : Attachment :=
  ⟨h.text, h.place path, .unattached, scope.annotationImports.entries⟩

/-- A held comment, if any, on its own. -/
def flush (path : String) (scope : Scope) : Option Held → List Attachment
  | some h => [h.unattached path scope]
  | none => []

/-- The comment at the current class. -/
def Held.atType (path : String) (scope : Scope) (h : Held) : Attachment :=
  let name := scope.typeName.getD ""
  h.attach path scope (.type name scope.parentType) name

/-- The comment at a property; the sigil is not part of its name. -/
def Held.atProperty (path : String) (scope : Scope) (h : Held) (isStatic : Bool)
    (text : String) : Attachment :=
  let name := String.ofList (text.toList.dropWhile (· = '$'))
  let owner := scope.typeName.getD ""
  h.attach path scope (.property name)
    (if isStatic then owner ++ "::$" ++ name else owner ++ "->" ++ name)

/-- The comment at a method. -/
def Held.atMethod (path : String) (scope : Scope) (h : Held) (name : String) : Attachment :=
  let owner := scope.typeName.getD ""
  h.attach path scope (.method name)
    (if owner = "" then name ++ "(...)" else owner ++ "->" ++ name ++ "(...)")

/-! ## 3. Names and imports -/

/-- A name that goes on with a token: separators always go on, an identifier at the start or
    behind a separator. -/
def continueName? (parts : List String) (t : Token) : Option (List String) :=
  if t.isPunct "\\" then some (parts ++ ["\\"])
  else if t.kind = .ident && (parts.getLast?.getD "\\") == "\\" then some (parts ++ [t.text])
  else none

/-- The name that has been read. -/
def nameOf (parts : List String) : String := String.join parts

/-- The scope with the parent of the current class set, if a name has been read. -/
def setParent (scope : Scope) (parts : List String) : Scope :=
  if nameOf parts = "" then scope
  else { scope with parentType := some (scope.resolve (nameOf parts)) }

/-- The alias of an imported name without one of its own: its last segment. -/
def defaultAlias (target : String) : String :=
  basename (String.ofList (target.toList.reverse.dropWhile (· = separator)).reverse)

/-- The start of the names in a group. -/
def groupStart (target : String) : String :=
  if target.toList.getLast? = some separator then target else target ++ "\\"

/-! ## 4. Steps -/

/-- The words that may stand among the modifiers of a member. -/
def isModifier (t : Token) : Bool :=
  t.kind.isVisibility || t.kind = .kwVar || t.kind = .kwAbstract ||
    (t.kind = .keyword && ["final", "readonly"].contains (Text.lowercase t.text))

/-- What the type of a property is written with. -/
def isTypeMaterial (t : Token) : Bool :=
  t.kind = .ident || (t.kind = .punct && ["?", "|", "&", "\\"].contains t.text)

/-- A token as ordinary material. -/
def scan (path : String) (scope : Scope) (held : Option Held) (t : Token) : Outcome :=
  match t.kind with
  | .docComment => (⟨scope, .scanning (some ⟨t.text, t.line⟩)⟩, flush path scope held)
  | .punct | .kwAbstract => (⟨scope, .scanning held⟩, [])
  | .kwNamespace => (⟨scope, .namespaceName held []⟩, [])
  | .kwUse => (⟨scope, .importName held "" []⟩, [])
  | .kwClass => (⟨scope, .typeHeader held⟩, [])
  | kind => match held with
    | none => (⟨scope, .scanning none⟩, [])
    | some h =>
      if kind.isVisibility || kind = .kwVar then (⟨scope, .member h false⟩, [])
      else if kind = .kwStatic then (⟨scope, .staticMember h⟩, [])
      else if kind = .kwFunction then (⟨scope, .methodName h false⟩, [])
      else (⟨scope, .scanning none⟩, [h.unattached path scope])

/-- The same outcome with a comment let go before it. -/
def Outcome.after (a : Attachment) (o : Outcome) : Outcome := (o.1, a :: o.2)

/-- A token behind an imported name with its alias. -/
def stepImportTail (path : String) (scope : Scope) (held : Option Held)
    (group target short : String) (t : Token) : Outcome :=
  if t.isPunct "\x7b" then (⟨scope, .importName held (groupStart target) []⟩, [])
  else
    let scope := scope.addImport short target
    if t.isPunct "\x7d" then (⟨scope, .groupEnd held⟩, [])
    else if t.isPunct "," then (⟨scope, .importName held group []⟩, [])
    else scan path scope held t

/-- A token that ends an imported name. -/
def endImportName (path : String) (scope : Scope) (held : Option Held) (group : String)
    (parts : List String) (t : Token) : Outcome :=
  if nameOf parts = "" then scan path scope held t
  else
    let target := group ++ nameOf parts
    if t.kind = .kwAs then (⟨scope, .importAlias held group target⟩, [])
    else stepImportTail path scope held group target (defaultAlias target) t

/-- What one token does. -/
def Walk.step (path : String) (w : Walk) (t : Token) : Outcome :=
  let scope := w.scope
  match w.mode with
  | .scanning held => scan path scope held t
  | .typeHeader held =>
    if t.kind = .ident then
      let scope := { scope with typeName := some (scope.qualify t.text), parentType := none }
      match held with
      | none => (⟨scope, .scanning none⟩, [])
      | some h => (⟨scope, .typeNamed h⟩, [])
    else scan path scope held t
  | .typeNamed h =>
    if t.kind = .kwExtends then (⟨scope, .parentName h []⟩, [])
    else .after (h.atType path scope) (scan path scope none t)
  | .parentName h parts => match continueName? parts t with
    | some parts => (⟨scope, .parentName h parts⟩, [])
    | none =>
      let scope := setParent scope parts
      .after (h.atType path scope) (scan path scope none t)
  | .member h isStatic =>
    if t.kind = .kwStatic then (⟨scope, .member h true⟩, [])
    else if t.kind = .varName then
      (⟨scope, .scanning none⟩, [h.atProperty path scope isStatic t.text])
    else if t.kind = .kwFunction then (⟨scope, .methodName h false⟩, [])
    else if isModifier t || isTypeMaterial t then (⟨scope, .member h isStatic⟩, [])
    else scan path scope (some h) t
  | .staticMember h =>
    if t.kind = .varName then
      (⟨scope, .scanning none⟩, [h.atProperty path scope true t.text])
    else if t.kind.isVisibility then (⟨scope, .member h true⟩, [])
    else if t.kind = .kwFunction then (⟨scope, .methodName h false⟩, [])
    else if isTypeMaterial t then (⟨scope, .staticMember h⟩, [])
    else scan path scope (some h) t
  | .methodName h byReference =>
    if !byReference && t.isPunct "&" then (⟨scope, .methodName h true⟩, [])
    else if t.kind = .ident then (⟨scope, .scanning none⟩, [h.atMethod path scope t.text])
    else .after (h.unattached path scope) (scan path scope none t)
  | .namespaceName held parts => match continueName? parts t with
    | some parts => (⟨scope, .namespaceName held parts⟩, [])
    | none => scan path { scope with namespaceName := nameOf parts } held t
  | .importName held group parts => match continueName? parts t with
    | some parts => (⟨scope, .importName held group parts⟩, [])
    | none => endImportName path scope held group parts t
  | .importAlias held group target =>
    if t.kind = .ident then (⟨scope, .importTail held group target t.text⟩, [])
    else scan path scope held t
  | .importTail held group target short => stepImportTail path scope held group target short t
  | .groupEnd held =>
    if t.isPunct "," then (⟨scope, .importName held "" []⟩, [])
    else scan path scope held t

/-- The scope at the end of a source: a name or an import that has been read counts. -/
def Walk.finalScope (w : Walk) : Scope :=
  match w.mode with
  | .parentName _ parts => setParent w.scope parts
  | .namespaceName _ parts => { w.scope with namespaceName := nameOf parts }
  | .importName _ group parts =>
    if nameOf parts = "" then w.scope
    else w.scope.addImport (defaultAlias (group ++ nameOf parts)) (group ++ nameOf parts)
  | .importTail _ _ target short => w.scope.addImport short target
  | _ => w.scope

/-- What the end of the source does: every comment is let go. -/
def Walk.finish (path : String) (w : Walk) : Outcome :=
  let scope := w.finalScope
  (⟨scope, .scanning none⟩,
    match w.mode with
    | .typeNamed h | .parentName h _ => [h.atType path scope]
    | mode => flush path scope mode.held)

/-- The pass over tokens and the end of the source. -/
def Walk.run (path : String) (w : Walk) : List Token → Outcome
  | [] => w.finish path
  | t :: more =>
    let (next, released) := w.step path t
    let (last, rest) := next.run path more
    (last, released ++ rest)

/-- The comments of a source with what they stand at. -/
def attachments (path : String) (tokens : List Token) : List Attachment :=
  (Walk.initial.run path tokens).2

end Marginalia.Php

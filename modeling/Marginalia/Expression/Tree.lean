import Marginalia.Expression.Token

/-!
# Annotation expressions

The expressions that stand in doc-comments, and their reader. The grammar:

    annotation = "@" name [ "(" [ argument { "," argument } [ "," ] ] ")" ]
    argument   = [ name "=" ] value
    value      = annotation | array | string | number | name
    array      = "{" [ entry { "," entry } [ "," ] ] "}"
    entry      = [ ( string | name | number ) ( "=" | ":" ) ] value

The reader takes one token at a time. Its state is a stack of open brackets and what may follow
in the innermost one (`Mode`); a token for which the state has no successor is the first one that
no expression can have there.
-/

namespace Marginalia.Expression

/-! ## 1. Trees -/

/-- A token that stands for itself: a name, a string or a number. -/
structure Atom where
  terminal : Terminal
  text : String
deriving DecidableEq, Repr

mutual

/-- A value as it is written. -/
inductive Tree where
  | atom (a : Atom)
  | array (items : List Item)
  /-- An annotation without an argument list. -/
  | bare (name : String)
  | call (name : String) (arguments : List Item)

/-- An argument or an entry: a value with an optional label. -/
structure Item where
  label : Option Atom
  value : Tree

end

/-! ## 2. States of the reader -/

/-- An open bracket. -/
inductive Bracket where
  | arguments (name : String)
  | array
deriving DecidableEq, Repr

/-- The terminal that closes a bracket. -/
def Bracket.closer : Bracket → Terminal
  | .arguments _ => .rpar
  | .array => .rbrace

/-- The tree of a closed bracket. -/
def Bracket.tree (items : List Item) : Bracket → Tree
  | .arguments name => .call name items
  | .array => .array items

/-- Whether an atom followed by a token is a label. -/
def Bracket.isLabel (a : Atom) (sign : Terminal) : Bracket → Bool
  | .arguments _ => a.terminal = .name && sign = .equal
  | .array => sign = .equal || sign = .colon

/-- An open bracket with the items read so far and the label of the item being read. -/
structure Frame where
  bracket : Bracket
  items : List Item
  label : Option Atom

/-- What has just been read. -/
inductive Mode where
  /-- Nothing. -/
  | start
  /-- The sign of an annotation: its name follows. -/
  | head
  /-- The name of an annotation: its argument list may follow. -/
  | named (name : String)
  /-- An opening bracket or a comma: an item or the closing bracket follows. -/
  | opened
  /-- An atom: the sign that makes it a label may follow. -/
  | atom (a : Atom)
  /-- A label with its sign: a value follows. -/
  | labelled
  /-- An item: a comma or the closing bracket follows. -/
  | item
  /-- The whole expression. -/
  | done (tree : Tree)

/-- A state of the reader: what has just been read, and the open brackets from the inside out. -/
structure State where
  mode : Mode
  frames : List Frame

/-- The state before the first token. -/
def State.initial : State := ⟨.start, []⟩

/-! ## 3. Steps -/

/-- The state after a whole value. -/
def complete (tree : Tree) : List Frame → State
  | [] => ⟨.done tree, []⟩
  | f :: outer => ⟨.item, ⟨f.bracket, f.items ++ [⟨f.label, tree⟩], none⟩ :: outer⟩

/-- The state after a closing bracket, if it closes the innermost one. -/
def close? (t : Terminal) : List Frame → Option State
  | [] => none
  | f :: outer =>
    if t = f.bracket.closer then some (complete (f.bracket.tree f.items) outer) else none

/-- The state after a token that follows an item. -/
def afterItem? (t : Terminal) : List Frame → Option State
  | [] => none
  | f :: outer => if t = .comma then some ⟨.opened, f :: outer⟩ else close? t (f :: outer)

/-- The state after a token that follows a whole value. -/
def afterValue? (tree : Tree) (frames : List Frame) (t : Terminal) : Option State :=
  afterItem? t (complete tree frames).frames

/-- The state after the first token of a value; an atom is a whole value if it cannot be a label
    any more. -/
def value? (t : Token) (mayLabel : Bool) (frames : List Frame) : Option State :=
  match t.terminal with
  | .at => some ⟨.head, frames⟩
  | .lbrace => some ⟨.opened, ⟨.array, [], none⟩ :: frames⟩
  | .name | .string | .number =>
    let a : Atom := ⟨t.terminal, t.text⟩
    some (if mayLabel then ⟨.atom a, frames⟩ else complete (.atom a) frames)
  | _ => none

/-- Makes an atom the label of the item being read. -/
def setLabel (a : Atom) : List Frame → List Frame
  | [] => []
  | f :: outer => ⟨f.bracket, f.items, some a⟩ :: outer

/-- Whether an atom followed by a token is a label in the innermost bracket. -/
def isLabel (a : Atom) (t : Terminal) : List Frame → Bool
  | [] => false
  | f :: _ => f.bracket.isLabel a t

/-- The state after one more token, if any expression goes on with it. -/
def State.step? (s : State) (t : Token) : Option State :=
  match s.mode with
  | .start => if t.terminal = .at then some ⟨.head, []⟩ else none
  | .head => if t.terminal = .name then some ⟨.named t.text, s.frames⟩ else none
  | .named name =>
    if t.terminal = .lpar then some ⟨.opened, ⟨.arguments name, [], none⟩ :: s.frames⟩
    else afterValue? (.bare name) s.frames t.terminal
  | .opened => (close? t.terminal s.frames).or (value? t true s.frames)
  | .atom a =>
    if isLabel a t.terminal s.frames then some ⟨.labelled, setLabel a s.frames⟩
    else afterValue? (.atom a) s.frames t.terminal
  | .labelled => value? t false s.frames
  | .item => afterItem? t.terminal s.frames
  | .done _ => none

/-- The tree of a state in which the text may end. -/
def State.tree? (s : State) : Option Tree :=
  match s.mode, s.frames with
  | .done tree, _ => some tree
  | .named name, [] => some (.bare name)
  | _, _ => none

/-! ## 4. Reading a text -/

/-- Runs over tokens; stops at the first one for which there is no successor. -/
def State.run (s : State) : List Token → Except Token State
  | [] => .ok s
  | t :: more => match s.step? t with
    | some next => next.run more
    | none => .error t

/-- Where an unexpected end is reported: at the last token. -/
def lastPlace (tokens : List Token) : Position := (tokens.getLast?.map (·.place)).getD .start

/-- Reads an annotation expression. -/
def parse (text : List Char) : Except Fault Tree :=
  let (ts, ending) := tokens text
  match State.initial.run ts with
  | .error t => .error (.unexpectedToken t.terminal t.text t.place)
  | .ok s => match ending, s.tree? with
    | .stuck c place, _ => .error (.unexpectedChar c place)
    | .complete, some tree => .ok tree
    | .complete, none => .error (.unexpectedEnd (lastPlace ts))

end Marginalia.Expression

import Marginalia.Php.Place

/-!
# The tree of a source

Each lexeme becomes a leaf, and the leaves are the tree of the source: what stands between them and
its root makes no difference to the tokens.

* a name with its separators is one leaf, blanks and comments around them included, and so is the
  code that stands in the place of a name behind a class;
* a name that is relative to the namespace starts with a keyword, and its last segment is a leaf of
  its own;
* a leaf knows its bytes: those that the characters of its text are read from.
-/

namespace Marginalia.Php

/-! ## 1. Names -/

/-- Several lexemes as one, which is of a given kind. -/
def joined (kind : LexemeKind) (first : Lexeme) (more : List Lexeme) : Lexeme :=
  { first with kind, text := first.text ++ more.flatMap fun l => l.gap ++ l.text }

/-- The segments by which a name goes on, each a separator and a word, with the comments among
    them. `pending` is what has been read of a segment. -/
def segments (pending : List Lexeme) (wantsWord : Bool) : List Lexeme → List (List Lexeme)
  | [] => []
  | l :: more =>
    if l.kind = .comment then segments (pending ++ [l]) wantsWord more
    else if wantsWord && l.kind = .word then (pending ++ [l]) :: segments [] false more
    else if !wantsWord && l.isSign "\\" then segments (pending ++ [l]) true more
    else []

/-- Whether a name starts here that is relative to the namespace. -/
def Place.isRelative (p : Place) : Bool :=
  p.lastIsSign "\\" && p.lastButOne.any (·.kind = .kwNamespace)

/-- The segments behind the first word of a name that belong to its token. -/
def Place.nameTail (p : Place) (more : List Lexeme) : List Lexeme :=
  let all := segments [] false more
  (if p.isRelative then all.dropLast else all).flatten

/-- Whether names that are imported together stand in front, behind a separator. -/
def opensGroup (ls : List Lexeme) : Bool :=
  match ls.filter (·.kind != .comment) with
  | separator :: brace :: _ => separator.isSign "\\" && brace.isSign "\x7b"
  | _ => false

/-- The segments behind a separator that starts a name. Where names are imported together, the
    separator in front of what they share stays apart. -/
def Place.qualifiedTail (p : Place) (more : List Lexeme) : List Lexeme :=
  let tail := (segments [] true more).flatten
  if p.lastIs fun t => t.kind = .kwNamespace || t.kind = .ident then []
  else if opensGroup (more.drop tail.length) then []
  else tail

/-! ## 2. Code in the place of a name -/

/-- The lexemes up to the brace that closes an open one. -/
def insideBraces (depth : Nat) : List Lexeme → List Lexeme
  | [] => []
  | l :: more =>
    if l.isSign "\x7d" then
      match depth with
      | 0 => []
      | outer + 1 => l :: insideBraces outer more
    else if l.isSign "\x7b" then l :: insideBraces (depth + 1) more
    else l :: insideBraces depth more

/-- The code inside of braces as one lexeme; comments at its ends stay apart. -/
def joinedCode (inner : List Lexeme) : List Lexeme :=
  let front := inner.takeWhile (·.kind = .comment)
  let back := (inner.reverse.takeWhile (·.kind = .comment)).reverse
  match (inner.drop front.length).take (inner.length - front.length - back.length) with
  | [] => inner
  | first :: more => front ++ joined .name first more :: back

/-- Lexemes with the code joined that stands in the place of a constant's name: in braces behind the
    sign for members of a class, but without arguments behind it. `afterSign` says whether that sign
    stands right before, and the first `inside` lexemes have been joined already. -/
def joinNames (inside : Nat) (afterSign : Bool) : List Lexeme → List Lexeme
  | [] => []
  | l :: more =>
    match inside with
    | rest + 1 => joinNames rest false more
    | 0 =>
      if afterSign && l.isSign "\x7b" then
        let inner := insideBraces 0 more
        if (firstCode? (more.drop (inner.length + 1))).any (·.isSign "(") then
          l :: joinNames 0 false more
        else l :: joinedCode inner ++ joinNames inner.length false more
      else l :: joinNames 0 (l.isSign "::" || (afterSign && l.kind = .comment)) more

/-! ## 3. Leaves -/

/-- A leaf of the tree of a source: its type, and the lexemes that it is made of, as one. -/
structure Leaf where
  type : LeafType
  lexeme : Lexeme

/-- The type of a literal. -/
def literalType (text : List Char) : String :=
  match text with
  | '\x27' :: _ => "string"
  | '"' :: _ => "encapsed_string"
  | '\\' :: _ => "escape_sequence"
  | '<' :: rest =>
    if ((rest.drop 2).dropWhile fun c => c = ' ' || c = '\t').head? = some '\x27' then "nowdoc"
    else "heredoc"
  | 'b' :: quote :: _ | 'B' :: quote :: _ => if quote = '\x27' then "string" else "encapsed_string"
  | number => if (pointNumber number).isEmpty then "integer" else "float"

/-- The type of a lexeme's leaf, given the lexemes behind it. -/
def Lexeme.leafType (p : Place) (more : List Lexeme) (l : Lexeme) : LeafType :=
  match l.kind with
  | .outside => ⟨"text", true⟩
  | .openTag => ⟨"php_tag", true⟩
  | .closeTag => ⟨"php_end_tag", true⟩
  | .comment => ⟨"comment", true⟩
  | .literal => ⟨literalType l.text, true⟩
  | .shellText => ⟨"string_content", true⟩
  | .variableName => ⟨"variable_name", true⟩
  | .word => p.wordType (String.ofList l.text) (firstCode? more)
  | .name => .word
  | .sign => ⟨String.ofList l.text, false⟩

/-- The lexemes that belong to the leaf of a lexeme, which stands in front of them. -/
def Lexeme.tail (p : Place) (type : LeafType) (more : List Lexeme) (l : Lexeme) : List Lexeme :=
  if l.kind = .word && type = .word then p.nameTail more
  else if l.isSign "\\" then p.qualifiedTail more
  else []

/-- What a leaf is to the code behind it. -/
def Leaf.token (l : Leaf) : Token :=
  let text := String.ofList l.lexeme.text
  ⟨(kindOf? l.type.name l.type.named text).getD .other, text, l.lexeme.line⟩

/-- The place behind a leaf. -/
def Place.afterLeaf (p : Place) (l : Leaf) (next : Option Lexeme) : Place :=
  if l.lexeme.kind = .comment then p
  else p.after (l.lexeme.kind = .word && p.isCast (Text.lowercase l.token.text) next) l.token

/-- The leaves of lexemes behind a place. The first `inside` lexemes belong to a leaf that has been
    made already. -/
def leavesFrom (inside : Nat) (p : Place) : List Lexeme → List Leaf
  | [] => []
  | l :: more =>
    match inside with
    | rest + 1 => leavesFrom rest p more
    | 0 =>
      let type := l.leafType p more
      let tail := l.tail p type more
      let leaf : Leaf :=
        ⟨if tail.isEmpty then type else ⟨"qualified_name", true⟩, joined l.kind l tail⟩
      leaf :: leavesFrom tail.length (p.afterLeaf leaf (firstCode? more)) more

/-- The leaves of a text. -/
def leaves (text : List Char) : List Leaf :=
  leavesFrom 0 .initial (joinNames 0 false (lexemes text))

/-! ## 4. Trees -/

/-- The nodes of leaves in a row, whose text is read from bytes behind `start` others. -/
def nodesFrom (start : Nat) (bytes : List UInt8) : List Leaf → List Node
  | [] => []
  | l :: more =>
    let gap := Text.extent l.lexeme.gap.length bytes
    let length := Text.extent l.lexeme.text.length (bytes.drop gap)
    let stop := start + gap + length
    ⟨l.type.name, l.type.named, start + gap, stop, l.lexeme.line - 1, []⟩ ::
      nodesFrom stop (bytes.drop (gap + length)) more

/-- The tree of a source. -/
def parse (source : List UInt8) : Node :=
  let start := Text.markLength source
  let bytes := source.drop start
  let nodes := nodesFrom start bytes (leaves (Text.decode bytes))
  match nodes with
  | [] => ⟨"program", true, source.length, source.length, source.count 0x0A, []⟩
  | first :: _ => ⟨"program", true, first.start, source.length, first.row, nodes⟩

/-- The tokens of a source. -/
def tokenize (source : List UInt8) : List Token := (parse source).tokens source

end Marginalia.Php

import Marginalia.Expression.Tree

/-!
# The grammar of annotation expressions

The grammar as it is declared, over tokens of which only the terminal and the text count:

    annotation = "@" NAME [ arguments ]
    arguments  = "(" [ value { "," value } [ "," ] ] ")"
    value      = NAME "=" plain | plain
    plain      = annotation | array | STRING | NUMBER | NAME
    array      = "{" [ entry { "," entry } [ "," ] ] "}"
    entry      = ( STRING | NAME | NUMBER ) ( "=" | ":" ) plain | plain

A `Derivation` is a derivation tree: it records every choice, also those that a `Tree` does not show
(a trailing comma, which of two signs stands behind a key). It is a derivation of its words
(`Derivation.words`), and it means a tree (`Derivation.meaning`).

The main result is that **no words have two derivations** (`Derivation.unambiguous`). It comes from
what can follow a derivation inside a longer one: with such words behind it, a derivation ends where
any other one would end.
-/

namespace Marginalia.Expression

/-! ## 1. Words -/

/-- A token of which only the terminal and the text count. -/
abbrev Word := Atom

/-- The word that a token is. -/
def Token.word (t : Token) : Word := ⟨t.terminal, t.text⟩

/-- The sign of an annotation. -/
def Word.at : Word := ⟨.at, "@"⟩

/-- What stands between the items of a list. -/
def Word.comma : Word := ⟨.comma, ","⟩

/-- The sign behind a label. -/
def Word.equal : Word := ⟨.equal, "="⟩

/-- The other sign behind a key. -/
def Word.colon : Word := ⟨.colon, ":"⟩

/-- The two lists in brackets: argument lists and arrays. -/
inductive Enclosure where
  | arguments
  | array
deriving DecidableEq, Repr

/-- The opening bracket. -/
def Enclosure.opening : Enclosure → Word
  | .arguments => ⟨.lpar, "("⟩
  | .array => ⟨.lbrace, "\x7b"⟩

/-- The closing bracket. -/
def Enclosure.closing : Enclosure → Word
  | .arguments => ⟨.rpar, ")"⟩
  | .array => ⟨.rbrace, "\x7d"⟩

/-- What stands behind the items of a list: a comma if there is a trailing one, and the closing
    bracket. -/
def Enclosure.ending (e : Enclosure) (trailing : Bool) : List Word :=
  if trailing then [.comma, e.closing] else [e.closing]

/-- The terminals that are whole values. -/
inductive Leaf where
  | name
  | string
  | number
deriving DecidableEq, Repr

/-- The terminal of a leaf. -/
def Leaf.terminal : Leaf → Terminal
  | .name => .name
  | .string => .string
  | .number => .number

/-- The sign between the key and the value of an entry. -/
inductive KeySign where
  | equal
  | colon
deriving DecidableEq, Repr

/-- The word of a key sign. -/
def KeySign.word : KeySign → Word
  | .equal => .equal
  | .colon => .colon

/-! ## 2. Derivations -/

/-- What can be derived: annotations, plain values, and for each of the two lists the list in its
    brackets, the items between the brackets, and one item. -/
inductive Nonterminal where
  | expression
  | plain
  | list (e : Enclosure)
  | items (e : Enclosure)
  | item (e : Enclosure)
deriving DecidableEq, Repr

/-- The derivations of a nonterminal, one constructor for each alternative of the grammar. -/
inductive Derivation : Nonterminal → Type where
  | bare (name : String) : Derivation .expression
  | applied (name : String) (arguments : Derivation (.list .arguments)) : Derivation .expression
  | nested (a : Derivation .expression) : Derivation .plain
  | array (entries : Derivation (.list .array)) : Derivation .plain
  | leaf (l : Leaf) (text : String) : Derivation .plain
  | empty (e : Enclosure) : Derivation (.list e)
  | filled {e : Enclosure} (items : Derivation (.items e)) (trailing : Bool) : Derivation (.list e)
  | single {e : Enclosure} (item : Derivation (.item e)) : Derivation (.items e)
  | cons {e : Enclosure} (item : Derivation (.item e)) (more : Derivation (.items e)) :
      Derivation (.items e)
  | unlabelled {e : Enclosure} (value : Derivation .plain) : Derivation (.item e)
  | assignment (name : String) (value : Derivation .plain) : Derivation (.item .arguments)
  | pair (key : Leaf) (text : String) (sign : KeySign) (value : Derivation .plain) :
      Derivation (.item .array)

/-- What the derivations of a nonterminal mean. -/
abbrev Nonterminal.Meaning : Nonterminal → Type
  | .expression | .plain => Tree
  | .list _ | .items _ => List Item
  | .item _ => Item

namespace Derivation

/-- The words that are derived. -/
def words : {s : Nonterminal} → Derivation s → List Word
  | _, .bare name => [.at, ⟨.name, name⟩]
  | _, .applied name arguments => .at :: ⟨.name, name⟩ :: arguments.words
  | _, .nested a => a.words
  | _, .array entries => entries.words
  | _, .leaf l text => [⟨l.terminal, text⟩]
  | _, .empty e => [e.opening, e.closing]
  | .list e, .filled items trailing => e.opening :: (items.words ++ e.ending trailing)
  | _, .single item => item.words
  | _, .cons item more => item.words ++ .comma :: more.words
  | _, .unlabelled value => value.words
  | _, .assignment name value => ⟨.name, name⟩ :: .equal :: value.words
  | _, .pair key text sign value => ⟨key.terminal, text⟩ :: sign.word :: value.words

/-- What a derivation means. -/
def meaning : {s : Nonterminal} → Derivation s → s.Meaning
  | _, .bare name => Tree.bare name
  | _, .applied name arguments => Tree.call name arguments.meaning
  | _, .nested a => a.meaning
  | _, .array entries => Tree.array entries.meaning
  | _, .leaf l text => Tree.atom ⟨l.terminal, text⟩
  | _, .empty _ => ([] : List Item)
  | _, .filled items _ => items.meaning
  | _, .single item => [item.meaning]
  | _, .cons item more => List.cons item.meaning more.meaning
  | _, .unlabelled value => Item.mk none value.meaning
  | _, .assignment name value => Item.mk (some ⟨.name, name⟩) value.meaning
  | _, .pair key text _ value => Item.mk (some ⟨key.terminal, text⟩) value.meaning

/-- The name of an annotation. -/
def head : Derivation .expression → String
  | .bare name => name
  | .applied name _ => name

/-- Whether an annotation has no argument list. -/
def isBare : Derivation .expression → Bool
  | .bare _ => true
  | .applied _ _ => false

/-! ## 3. Where derivations start and end -/

/-- The terminals that a value or an item can start with. -/
def startsItem : Terminal → Bool
  | .at | .lbrace | .name | .string | .number => true
  | _ => false

/-- The terminals that can stand behind a value or an item. -/
def endsItem : Terminal → Bool
  | .comma | .rpar | .rbrace => true
  | _ => false

theorem startsItem_leaf (l : Leaf) : startsItem l.terminal = true := by cases l <;> rfl

theorem startsItem_closing (e : Enclosure) : startsItem e.closing.terminal = false := by
  cases e <;> rfl

theorem endsItem_closing (e : Enclosure) : endsItem e.closing.terminal = true := by
  cases e <;> rfl

/-- The first word of a nonterminal's derivations. -/
def StartOf : Nonterminal → Terminal → Prop
  | .expression, t => t = .at
  | .list e, t => t = e.opening.terminal
  | _, t => startsItem t = true

theorem words_head {s : Nonterminal} (d : Derivation s) :
    ∃ w rest, d.words = w :: rest ∧ StartOf s w.terminal := by
  induction d with
  | bare name => exact ⟨_, _, rfl, rfl⟩
  | applied name arguments => exact ⟨_, _, rfl, rfl⟩
  | nested a ih =>
      obtain ⟨w, rest, hw, hstart⟩ := ih
      exact ⟨w, rest, hw, by rw [show w.terminal = .at from hstart]; rfl⟩
  | array entries ih =>
      obtain ⟨w, rest, hw, hstart⟩ := ih
      exact ⟨w, rest, hw, by rw [show w.terminal = .lbrace from hstart]; rfl⟩
  | leaf l text => exact ⟨_, _, rfl, startsItem_leaf l⟩
  | empty e => exact ⟨_, _, rfl, rfl⟩
  | filled items trailing => exact ⟨_, _, rfl, rfl⟩
  | single item ih => exact ih
  | cons item more ih =>
      obtain ⟨w, rest, hw, hstart⟩ := ih
      exact ⟨w, rest ++ .comma :: more.words, by rw [words, hw]; rfl, hstart⟩
  | unlabelled value ih => exact ih
  | assignment name value => exact ⟨_, _, rfl, rfl⟩
  | pair key text sign value => exact ⟨_, _, rfl, startsItem_leaf key⟩

theorem startOf_head {s : Nonterminal} {d : Derivation s} {w : Word} {r r' : List Word}
    (h : d.words ++ r = w :: r') : StartOf s w.terminal := by
  obtain ⟨v, rest, hv, hstart⟩ := d.words_head
  rw [hv] at h
  rwa [(List.cons.inj h).1] at hstart

/-- Annotations and arrays do not start alike. -/
theorem not_expression_array {a : Derivation .expression} {l : Derivation (.list .array)}
    {r r' : List Word} (h : a.words ++ r = l.words ++ r') : False := by
  obtain ⟨w, rest, hw, hstart⟩ := l.words_head
  rw [hw] at h
  have hat : w.terminal = .at := startOf_head h
  rw [show w.terminal = .lbrace from hstart] at hat
  cases hat

theorem leafWord_inj {k l : Leaf} {s t : String}
    (h : (⟨k.terminal, s⟩ : Word) = ⟨l.terminal, t⟩) : k = l ∧ s = t := by
  injection h with hterminal htext
  refine ⟨?_, htext⟩
  cases k <;> cases l <;> cases hterminal <;> rfl

/-- A plain value whose first word is a leaf is that leaf. -/
theorem words_of_leaf {d : Derivation .plain} {l : Leaf} {text : String} {r r' : List Word}
    (h : d.words ++ r = ⟨l.terminal, text⟩ :: r') : d = .leaf l text ∧ r = r' := by
  cases d with
  | leaf k t =>
      injection h with hword hrest
      obtain ⟨rfl, rfl⟩ := leafWord_inj hword
      exact ⟨rfl, hrest⟩
  | nested a =>
      have hstart : l.terminal = .at := startOf_head (d := a) h
      cases l <;> cases hstart
  | array entries =>
      have hstart : l.terminal = .lbrace := startOf_head (d := entries) h
      cases l <;> cases hstart

/-- The words stand behind a value or an item. -/
def Ended (r : List Word) : Prop := ∀ w rest, r = w :: rest → endsItem w.terminal = true

/-- The words stand behind the items of a list: its closing bracket, or a comma and that. -/
def Closed (e : Enclosure) (r : List Word) : Prop :=
  ∃ rest, r = e.closing :: rest ∨ r = .comma :: e.closing :: rest

/-- What can follow a derivation inside a longer one. -/
def Follow : Nonterminal → List Word → Prop
  | .list _, _ => True
  | .items e, r => Closed e r
  | _, r => Ended r

theorem ended_cons {w : Word} (h : endsItem w.terminal = true) (r : List Word) :
    Ended (w :: r) := by
  intro v rest heq
  cases heq
  exact h

theorem Closed.ended {e : Enclosure} {r : List Word} (h : Closed e r) : Ended r := by
  obtain ⟨rest, rfl | rfl⟩ := h
  · exact ended_cons (endsItem_closing e) _
  · exact ended_cons rfl _

theorem closed_ending (e : Enclosure) (trailing : Bool) (r : List Word) :
    Closed e (e.ending trailing ++ r) := by
  cases trailing with
  | true => exact ⟨r, .inr rfl⟩
  | false => exact ⟨r, .inl rfl⟩

theorem ending_inj {e : Enclosure} {t t' : Bool} {r r' : List Word}
    (h : e.ending t ++ r = e.ending t' ++ r') : t = t' ∧ r = r' := by
  cases t <;> cases t' <;> cases e <;> cases h <;> exact ⟨rfl, rfl⟩

/-- No derivation of items starts like the end of their list. -/
theorem not_closing_head {e : Enclosure} {d : Derivation (.items e)} {r r' : List Word}
    (h : d.words ++ r = e.closing :: r') : False := by
  have hclosing := startsItem_closing e
  rw [show startsItem e.closing.terminal = true from startOf_head h] at hclosing
  cases hclosing

/-- An argument list does not stand behind a whole annotation. -/
theorem not_ended_arguments {d : Derivation (.list .arguments)} {r : List Word}
    (h : Ended (d.words ++ r)) : False := by
  obtain ⟨w, rest, hw, hstart⟩ := d.words_head
  rw [hw] at h
  have hends := h w (rest ++ r) rfl
  rw [show w.terminal = .lpar from hstart] at hends
  cases hends

/-- The sign behind a key does not stand behind a whole value. -/
theorem not_ended_sign (sign : KeySign) {r : List Word} (h : Ended (sign.word :: r)) : False := by
  have hends := h sign.word r rfl
  cases sign <;> cases hends

/-- More items do not stand behind the last one. -/
theorem not_closed_more {e : Enclosure} {d : Derivation (.items e)} {r : List Word}
    (h : Closed e (.comma :: (d.words ++ r))) : False := by
  obtain ⟨rest, h | h⟩ := h
  · cases e <;> cases h
  · exact not_closing_head (List.cons.inj h).2

/-! ## 4. No words have two derivations -/

/-- **With what can follow behind it, a derivation ends where any other one ends, and is the same.**
    The induction is on the first derivation; the second one has to start with the same words. -/
theorem eq_of_words_append {s : Nonterminal} (d d' : Derivation s) {r r' : List Word}
    (hr : Follow s r) (hr' : Follow s r') (h : d.words ++ r = d'.words ++ r') :
    d = d' ∧ r = r' := by
  induction d generalizing r r' with
  | bare name =>
      cases d' with
      | bare name' =>
          cases h
          exact ⟨rfl, rfl⟩
      | applied name' arguments =>
          have hrest : r = arguments.words ++ r' := (List.cons.inj (List.cons.inj h).2).2
          rw [hrest] at hr
          exact (not_ended_arguments hr).elim
  | applied name arguments ih =>
      cases d' with
      | bare name' =>
          have hrest : arguments.words ++ r = r' := (List.cons.inj (List.cons.inj h).2).2
          rw [← hrest] at hr'
          exact (not_ended_arguments hr').elim
      | applied name' arguments' =>
          injection h with _ h
          injection h with hname h
          cases hname
          obtain ⟨rfl, rfl⟩ := ih arguments' trivial trivial h
          exact ⟨rfl, rfl⟩
  | nested a ih =>
      cases d' with
      | nested a' =>
          obtain ⟨rfl, rfl⟩ := ih a' hr hr' h
          exact ⟨rfl, rfl⟩
      | array entries => exact (not_expression_array h).elim
      | leaf l text => exact words_of_leaf h
  | array entries ih =>
      cases d' with
      | nested a => exact (not_expression_array h.symm).elim
      | array entries' =>
          obtain ⟨rfl, rfl⟩ := ih entries' trivial trivial h
          exact ⟨rfl, rfl⟩
      | leaf l text => exact words_of_leaf h
  | leaf l text =>
      obtain ⟨rfl, rfl⟩ := words_of_leaf h.symm
      exact ⟨rfl, rfl⟩
  | empty e =>
      cases d' with
      | empty => exact ⟨rfl, (List.cons.inj (List.cons.inj h).2).2⟩
      | filled items trailing =>
          have hhead : items.words ++ (e.ending trailing ++ r') = e.closing :: r := by
            rw [← List.append_assoc]
            exact (List.cons.inj h).2.symm
          exact (not_closing_head hhead).elim
  | @filled e items trailing ih =>
      cases d' with
      | empty =>
          have hhead : items.words ++ (e.ending trailing ++ r) = e.closing :: r' := by
            rw [← List.append_assoc]
            exact (List.cons.inj h).2
          exact (not_closing_head hhead).elim
      | filled items' trailing' =>
          have hitems : items.words ++ (e.ending trailing ++ r) =
              items'.words ++ (e.ending trailing' ++ r') := by
            rw [← List.append_assoc, ← List.append_assoc]
            exact (List.cons.inj h).2
          obtain ⟨rfl, hend⟩ := ih items' (closed_ending _ _ _) (closed_ending _ _ _) hitems
          obtain ⟨rfl, rfl⟩ := ending_inj hend
          exact ⟨rfl, rfl⟩
  | single item ih =>
      cases d' with
      | single item' =>
          obtain ⟨rfl, rfl⟩ := ih item' hr.ended hr'.ended h
          exact ⟨rfl, rfl⟩
      | cons item' more =>
          rw [words, words, List.append_assoc] at h
          obtain ⟨-, rfl⟩ := ih item' hr.ended (ended_cons rfl _) h
          exact (not_closed_more hr).elim
  | cons item more ihItem ihMore =>
      cases d' with
      | single item' =>
          rw [words, words, List.append_assoc] at h
          obtain ⟨-, hrest⟩ := ihItem item' (ended_cons rfl _) hr'.ended h
          rw [← hrest] at hr'
          exact (not_closed_more hr').elim
      | cons item' more' =>
          rw [words, words, List.append_assoc, List.append_assoc] at h
          obtain ⟨rfl, hrest⟩ := ihItem item' (ended_cons rfl _) (ended_cons rfl _) h
          obtain ⟨rfl, rfl⟩ := ihMore more' hr hr' (List.cons.inj hrest).2
          exact ⟨rfl, rfl⟩
  | unlabelled value ih =>
      cases d' with
      | unlabelled value' =>
          obtain ⟨rfl, rfl⟩ := ih value' hr hr' h
          exact ⟨rfl, rfl⟩
      | assignment name value' =>
          have hrest := (words_of_leaf (l := .name) h).2
          rw [hrest] at hr
          exact (not_ended_sign .equal hr).elim
      | pair key text sign value' =>
          have hrest := (words_of_leaf (l := key) h).2
          rw [hrest] at hr
          exact (not_ended_sign sign hr).elim
  | assignment name value ih =>
      cases d' with
      | unlabelled value' =>
          have hrest := (words_of_leaf (l := .name) h.symm).2
          rw [hrest] at hr'
          exact (not_ended_sign .equal hr').elim
      | assignment name' value' =>
          injection h with hname h
          cases hname
          obtain ⟨rfl, rfl⟩ := ih value' hr hr' (List.cons.inj h).2
          exact ⟨rfl, rfl⟩
  | pair key text sign value ih =>
      cases d' with
      | unlabelled value' =>
          have hrest := (words_of_leaf (l := key) h.symm).2
          rw [hrest] at hr'
          exact (not_ended_sign sign hr').elim
      | pair key' text' sign' value' =>
          injection h with hkey h
          injection h with hsign h
          obtain ⟨rfl, rfl⟩ := leafWord_inj hkey
          have hsign : sign = sign' := by cases sign <;> cases sign' <;> cases hsign <;> rfl
          obtain ⟨rfl, rfl⟩ := ih value' hr hr' h
          rw [hsign]
          exact ⟨rfl, rfl⟩

/-- **No words have two derivations.** -/
theorem unambiguous {d d' : Derivation .expression} (h : d.words = d'.words) : d = d' := by
  have hended : Ended [] := nofun
  refine (eq_of_words_append d d' hended hended ?_).1
  rw [h]

end Derivation

end Marginalia.Expression

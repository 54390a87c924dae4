import Mathlib.Data.List.Infix
import Marginalia.Php.Tree

/-!
# Trees that span their source

What a parser for PHP promises of the tree of a source that it can read. What counts as white space
is up to the parser, and a parameter here:

* `InRow`: nodes stand one behind another, in the order of the source, and nothing but white space
  is left between them;
* `Node.Sound`: so do the children of a node, inside of it. A node knows the row on which it starts,
  and is only called a comment if it is one (`IsComment`);
* `Node.Parses`: all nodes of a tree are sound, and nothing but white space is left outside of the
  root.
-/

namespace Marginalia.Php

/-! ## 1. White space and comments -/

/-- The text consists of white space only. -/
def IsWhite (white : Char → Bool) (text : List Char) : Prop := ∀ c ∈ text, white c = true

instance (white : Char → Bool) (text : List Char) : Decidable (IsWhite white text) :=
  decidable_of_iff (text.all white = true) List.all_eq_true

theorem isWhite_nil {white : Char → Bool} : IsWhite white [] := List.forall_mem_nil _

/-- Where a comment of one line ends: at the end of the text or of the line, or in front of the tag
    that closes code. -/
def EndsRemark (after : List Char) : Prop :=
  after = [] ∨ (∃ rest, after = '\n' :: rest ∨ after = '\r' :: rest) ∨ ['?', '>'] <+: after

/-- **The text is a comment, in front of another one.**

    * A comment between marks has the closing mark at its end and nowhere else, unless it is never
      closed;
    * a comment of one line has no end of a line in it, unless it takes that in at its own end, and
      the tag that closes code only behind one more question mark. An attribute is no comment,
      although it starts with the same sign. -/
inductive IsComment (after : List Char) : List Char → Prop
  | between {body : List Char} (only : ∀ u v, body = u ++ '*' :: '/' :: v → v = [])
      (ends : ['*', '/'] <:+ body ∨ after = []) : IsComment after ('/' :: '*' :: body)
  | line {c : Char} {body final : List Char}
      (mark : (c = '/' ∧ body.head? = some '/') ∨
        (c = '#' ∧ (body ++ (final ++ after)).head? ≠ some '['))
      (oneLine : '\n' ∉ body ∧ '\r' ∉ body)
      (lineEnd : final = [] ∨ final = ['\n'] ∨ final = ['\r', '\n'])
      (tag : ∀ u v, body = u ++ '?' :: '>' :: v → u.getLast? = some '?')
      (ends : EndsRemark (final ++ after)) : IsComment after (c :: (body ++ final))

/-! ## 2. Nodes in a row -/

/-- **Nodes in a row**, between two places of a source: they stand one behind another, and what is
    left in front of each and behind the last one is white space. -/
def InRow (white : Char → Bool) (source : List UInt8) (stop : Nat) : Nat → List Node → Prop
  | start, [] => start ≤ stop ∧ IsWhite white (Text.decode (slice source start stop))
  | start, n :: more =>
    (start ≤ n.start ∧ n.start ≤ n.stop) ∧
      IsWhite white (Text.decode (slice source start n.start)) ∧ InRow white source stop n.stop more

instance decidableInRow (white : Char → Bool) (source : List UInt8) (stop : Nat) :
    (start : Nat) → (ns : List Node) → Decidable (InRow white source stop start ns)
  | _, [] => inferInstanceAs (Decidable (_ ∧ _))
  | _, n :: more =>
    have := decidableInRow white source stop n.stop more
    inferInstanceAs (Decidable ((_ ∧ _) ∧ _ ∧ _))

/-- A row leads from its start to its stop. -/
theorem InRow.le {white : Char → Bool} {source : List UInt8} {start stop : Nat} {ns : List Node}
    (h : InRow white source stop start ns) : start ≤ stop := by
  induction ns generalizing start with
  | nil => exact h.1
  | cons n more ih =>
      obtain ⟨⟨hgap, hle⟩, -, hmore⟩ := h
      exact Nat.le_trans hgap (Nat.le_trans hle (ih hmore))

/-! ## 3. Trees -/

namespace Node

mutual

/-- All nodes of a tree. -/
def nodes : Node → List Node
  | n@⟨_, _, _, _, _, children⟩ => n :: nodesOf children

/-- All nodes of trees in a row. -/
def nodesOf : List Node → List Node
  | [] => []
  | n :: more => n.nodes ++ nodesOf more

end

theorem mem_nodesOf_head (n : Node) (more : List Node) : n ∈ nodesOf (n :: more) := by
  cases n
  rw [nodesOf, nodes]
  exact List.mem_append_left _ List.mem_cons_self

/-- **What is promised of a node.** -/
structure Sound (white : Char → Bool) (source : List UInt8) (n : Node) : Prop where
  /-- What it is made of stands in it in order, and leaves nothing but white space. -/
  children : n.children ≠ [] → InRow white source n.stop n.start n.children
  /-- The lines above it are those that end in front of it. -/
  row : n.row = (source.take n.start).count 0x0A
  /-- What is called a comment is one. -/
  comment : n.type = "comment" → IsComment (Text.decode (source.drop n.stop)) (n.text source)

/-- **The tree is one of the source.** -/
structure Parses (white : Char → Bool) (source : List UInt8) (root : Node) : Prop where
  /-- Outside of the root there is nothing but white space, and a byte order mark at the start. -/
  outside : InRow white source source.length (Text.markLength source) [root]
  sound : ∀ n ∈ root.nodes, n.Sound white source

end Node

end Marginalia.Php

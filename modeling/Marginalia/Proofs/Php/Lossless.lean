import Mathlib.Data.List.Infix
import Marginalia.Proofs.Php.Spans

/-!
# Tokens are a view of their source

The tokens of a tree stand in its source one behind another, and nothing but white space and plain
comments stands between them:

* `Piece`, `Piece.Faithful`: the pieces that a source falls into. Each is a token, with its text and
  its line, or white space, or a comment that documents nothing;
* `Covers`: the bytes between two places fall into such pieces, with the tokens that are given.
  Pieces of one stretch of bytes and those of the next one are pieces of both (`Covers.append`);
* `Node.covers_tokens`: so do the bytes of a sound tree, with the tokens of the tree.

Main statement: `tokens_lossless`.
-/

namespace Marginalia.Php

/-! ## 1. Slices -/

theorem drop_eq_drop_drop (source : List UInt8) {start stop : Nat} (h : start ≤ stop) :
    source.drop stop = (source.drop start).drop (stop - start) := by
  rw [List.drop_drop, Nat.add_sub_cancel' h]

theorem slice_append {source : List UInt8} {start middle stop : Nat} (h : start ≤ middle)
    (h' : middle ≤ stop) :
    slice source start middle ++ slice source middle stop = slice source start stop := by
  have hdrop := drop_eq_drop_drop source h
  have hlength : stop - start = middle - start + (stop - middle) := by omega
  rw [slice, slice, slice, hdrop, hlength, List.take_add]

theorem take_slice {source : List UInt8} {start stop : Nat} (h : start ≤ stop) :
    source.take start ++ slice source start stop = source.take stop :=
  slice_append (Nat.zero_le start) h

theorem slice_drop {source : List UInt8} {start stop : Nat} (h : start ≤ stop) :
    slice source start stop ++ source.drop stop = source.drop start := by
  rw [slice, drop_eq_drop_drop source h, List.take_append_drop]

/-! ## 2. Pieces -/

/-- The text starts like a comment that documents something. -/
def Documents (text : List Char) : Prop := ['/', '*', '*'] <+: text

/-- A piece of a source: some bytes, and the token that they are, if they are one. -/
structure Piece where
  bytes : List UInt8
  token : Option Token

namespace Piece

/-- The bytes of pieces in a row. -/
def join (pieces : List Piece) : List UInt8 := pieces.flatMap Piece.bytes

theorem join_append (ps qs : List Piece) : join (ps ++ qs) = join ps ++ join qs :=
  List.flatMap_append

/-- **What a piece is on a line, in front of some bytes**: a token, read from its bytes, that knows
    the line; white space; or a comment that documents nothing. -/
inductive Faithful (white : Char → Bool) (line : Nat) (after : List UInt8) : Piece → Prop
  | token {bytes : List UInt8} {t : Token} (text : t.text = String.ofList (Text.decode bytes))
      (starts : t.line = line) : Faithful white line after ⟨bytes, some t⟩
  | white {bytes : List UInt8} (space : IsWhite white (Text.decode bytes)) :
      Faithful white line after ⟨bytes, none⟩
  | comment {bytes : List UInt8} (comment : IsComment (Text.decode after) (Text.decode bytes))
      (plain : ¬Documents (Text.decode bytes)) : Faithful white line after ⟨bytes, none⟩

/-- Every piece is what it should be where it stands: from a line on, in front of some bytes. -/
def AllFaithful (white : Char → Bool) (line : Nat) (after : List UInt8) (pieces : List Piece) :
    Prop :=
  ∀ before p more, pieces = before ++ p :: more →
    p.Faithful white (line + (join before).count 0x0A) (join more ++ after)

variable {white : Char → Bool} {line : Nat} {after : List UInt8} {p : Piece} {ps qs : List Piece}

theorem AllFaithful.nil : AllFaithful white line after [] := by
  intro before p more hsplit
  cases before <;> cases hsplit

theorem allFaithful_cons :
    AllFaithful white line after (p :: ps) ↔ p.Faithful white line (join ps ++ after) ∧
      AllFaithful white (line + p.bytes.count 0x0A) after ps := by
  constructor
  · intro h
    refine ⟨h [] p ps rfl, fun before q more hsplit => ?_⟩
    have hq := h (p :: before) q more (congrArg (p :: ·) hsplit)
    have hjoin : join (p :: before) = p.bytes ++ join before := rfl
    rwa [hjoin, List.count_append, ← Nat.add_assoc] at hq
  · rintro ⟨hp, hps⟩ before q more hsplit
    cases before with
    | nil =>
        obtain ⟨rfl, rfl⟩ := List.cons.inj hsplit
        exact hp
    | cons d before =>
        obtain ⟨rfl, hrest⟩ := List.cons.inj hsplit
        have hq := hps before q more hrest
        have hjoin : join (p :: before) = p.bytes ++ join before := rfl
        rwa [hjoin, List.count_append, ← Nat.add_assoc]

theorem AllFaithful.append (hps : AllFaithful white line (join qs ++ after) ps)
    (hqs : AllFaithful white (line + (join ps).count 0x0A) after qs) :
    AllFaithful white line after (ps ++ qs) := by
  induction ps generalizing line with
  | nil => exact hqs
  | cons p ps ih =>
      obtain ⟨hp, hrest⟩ := allFaithful_cons.mp hps
      have hjoin : join (p :: ps) = p.bytes ++ join ps := rfl
      rw [hjoin, List.count_append, ← Nat.add_assoc] at hqs
      rw [← List.append_assoc, ← join_append] at hp
      exact allFaithful_cons.mpr ⟨hp, ih hrest hqs⟩

/-- In a row of pieces no token is on a line above that of an earlier one. -/
theorem AllFaithful.pairwise (h : AllFaithful white line after ps) :
    (∀ t ∈ ps.filterMap token, line ≤ t.line) ∧
      (ps.filterMap token).Pairwise fun t u => t.line ≤ u.line := by
  induction ps generalizing line with
  | nil => exact ⟨nofun, .nil⟩
  | cons p ps ih =>
      obtain ⟨hp, hps⟩ := allFaithful_cons.mp h
      obtain ⟨hlines, hpairs⟩ := ih hps
      have hbehind : ∀ t ∈ ps.filterMap token, line ≤ t.line := fun t ht =>
        Nat.le_trans (Nat.le_add_right line _) (hlines t ht)
      cases hp with
      | white | comment => exact ⟨hbehind, hpairs⟩
      | token text starts =>
          refine ⟨List.forall_mem_cons.mpr ⟨starts.ge, hbehind⟩,
            List.pairwise_cons.mpr ⟨?_, hpairs⟩⟩
          rw [starts]
          exact hbehind

end Piece

/-! ## 3. Stretches of bytes -/

/-- **The bytes between two places fall into pieces**, the tokens among which are those given. -/
def Covers (white : Char → Bool) (source : List UInt8) (start stop : Nat) (ts : List Token) :
    Prop :=
  ∃ pieces, Piece.join pieces = slice source start stop ∧ pieces.filterMap Piece.token = ts ∧
    Piece.AllFaithful white (1 + (source.take start).count 0x0A) (source.drop stop) pieces

variable {white : Char → Bool} {source : List UInt8} {start middle stop : Nat} {ts us : List Token}

theorem Covers.append (h : start ≤ middle) (h' : middle ≤ stop)
    (hts : Covers white source start middle ts) (hus : Covers white source middle stop us) :
    Covers white source start stop (ts ++ us) := by
  obtain ⟨ps, hps, rfl, hfront⟩ := hts
  obtain ⟨qs, hqs, rfl, hback⟩ := hus
  refine ⟨ps ++ qs, ?_, List.filterMap_append, .append ?_ ?_⟩
  · rw [Piece.join_append, hps, hqs, slice_append h h']
  · rwa [hqs, slice_drop h']
  · rwa [hps, Nat.add_assoc, ← List.count_append, take_slice h]

/-- A stretch that is one piece. -/
theorem Covers.single {token : Option Token}
    (h : Piece.Faithful white (1 + (source.take start).count 0x0A) (source.drop stop)
      ⟨slice source start stop, token⟩) : Covers white source start stop token.toList := by
  refine ⟨[⟨_, token⟩], List.append_nil _, ?_, Piece.allFaithful_cons.mpr ⟨h, .nil⟩⟩
  cases token <;> rfl

namespace Node

/-- What has no kind is a comment that documents nothing. -/
theorem kindOf?_eq_none {type : String} {named : Bool} {text : String}
    (h : kindOf? type named text = none) : type = "comment" ∧ ¬Documents text.toList := by
  unfold kindOf? at h
  dsimp only at h
  split at h
  · rename_i hcomment
    split at h
    · cases h
    · rename_i hplain
      exact ⟨beq_iff_eq.mp hcomment, fun hdocuments =>
        hplain (List.isPrefixOf_iff_prefix.mpr hdocuments)⟩
  · split at h
    · cases h
    · split at h <;> cases h

/-- A sound node is one piece as a whole. -/
theorem Sound.covers {n : Node} (h : n.Sound white source)
    (hblank : ∀ c, Text.isBlank c = true → white c = true) :
    Covers white source n.start n.stop (n.token? source).toList := by
  refine .single ?_
  unfold token?
  dsimp only
  split
  · rename_i hall
    exact .white fun c hc => hblank c (List.all_eq_true.mp hall c hc)
  · cases hkind : kindOf? n.type n.named (String.ofList (n.text source)) with
    | some kind =>
        refine .token rfl ?_
        rw [h.row, Nat.add_comm]
    | none =>
        obtain ⟨hcomment, hplain⟩ := kindOf?_eq_none hkind
        rw [String.toList_ofList] at hplain
        exact .comment (h.comment hcomment) hplain

mutual

/-- **The tokens of a sound tree are a view of its bytes.** -/
theorem covers_tokens (hblank : ∀ c, Text.isBlank c = true → white c = true) :
    (n : Node) → (∀ m ∈ n.nodes, m.Sound white source) →
      Covers white source n.start n.stop (n.tokens source)
  | ⟨type, named, start, stop, row, children⟩, h => by
      rw [nodes] at h
      obtain ⟨hn, hchildren⟩ := List.forall_mem_cons.mp h
      rw [tokens]
      split
      · exact hn.covers hblank
      · rename_i hwhole
        have hne : children ≠ [] := by
          rintro rfl
          exact hwhole rfl
        exact covers_tokensOf hblank children (hn.children hne) hchildren

/-- So are those of sound trees in a row. -/
theorem covers_tokensOf (hblank : ∀ c, Text.isBlank c = true → white c = true) :
    {start stop : Nat} → (ns : List Node) → InRow white source stop start ns →
      (∀ m ∈ nodesOf ns, m.Sound white source) → Covers white source start stop (tokensOf source ns)
  | start, stop, [], hrow, _ => .single (.white hrow.2)
  | start, stop, n :: more, hrow, h => by
      rw [nodesOf] at h
      obtain ⟨hn, hmore⟩ := List.forall_mem_append.mp h
      obtain ⟨⟨hgap, hle⟩, hwhite, hrest⟩ := hrow
      have hfront : Covers white source start n.start [] := .single (.white hwhite)
      have hnode := covers_tokens hblank n hn
      have hback := covers_tokensOf hblank more hrest hmore
      have hall := hnode.append hle hrest.le hback
      rw [tokensOf, ← List.nil_append (n.tokens source ++ _)]
      exact hfront.append hgap (Nat.le_trans hle hrest.le) hall

end

/-- The tokens of a tree are a view of all of its source, a byte order mark apart. -/
theorem Parses.covers {root : Node} (h : root.Parses white source)
    (hblank : ∀ c, Text.isBlank c = true → white c = true) :
    Covers white source (Text.markLength source) source.length (root.tokens source) := by
  have hsound : ∀ m ∈ nodesOf [root], m.Sound white source := by
    rw [nodesOf, nodesOf, List.append_nil]
    exact h.sound
  have hcovers := covers_tokensOf hblank [root] h.outside hsound
  rwa [tokensOf, tokensOf, List.append_nil] at hcovers

end Node

/-! ## 4. The main statement -/

/-- No line ends in a byte order mark. -/
theorem count_mark (source : List UInt8) :
    (source.take (Text.markLength source)).count 0x0A = 0 := by
  unfold Text.markLength
  split
  · rename_i hmark
    rw [← List.prefix_iff_eq_take.mp (List.isPrefixOf_iff_prefix.mp hmark)]
    decide
  · rfl

/-- **The tokens of a source are a lossless view of it, in order.** A tree is given whose nodes
    stand in the source in order and leave out nothing but white space, whatever counts as that
    besides the blanks. Then the source, behind a byte order mark if it has one, falls into pieces.
    Those that are tokens are the tokens of the tree, in order, each read from its bytes, on the
    line that is one more than the line feeds before it. All others are white space, or comments
    that document nothing. -/
theorem tokens_lossless {white : Char → Bool}
    (hblank : ∀ c, Text.isBlank c = true → white c = true) {source : List UInt8} {root : Node}
    (h : root.Parses white source) :
    ∃ pieces : List Piece,
      Piece.join pieces = source.drop (Text.markLength source) ∧
      pieces.filterMap Piece.token = root.tokens source ∧
      (∀ before p after, pieces = before ++ p :: after →
        p.Faithful white (1 + (Piece.join before).count 0x0A) (Piece.join after)) ∧
      (root.tokens source).Pairwise fun t u => t.line ≤ u.line := by
  obtain ⟨pieces, hjoin, htokens, hfaithful⟩ := h.covers hblank
  have hpairs := hfaithful.pairwise.2
  rw [htokens] at hpairs
  refine ⟨pieces, ?_, htokens, fun before p after hsplit => ?_, hpairs⟩
  · rw [hjoin, slice, ← List.length_drop, List.take_length]
  · have hp := hfaithful before p after hsplit
    rwa [count_mark, List.drop_length, List.append_nil] at hp

/-- A class with a comment of its own, and another comment in front of that. -/
def commentedClass : List UInt8 :=
  "<?php\nnamespace A\\B;\n# a\n/** d */\nclass C \x7b\x7d".toUTF8.toList

/-- The tree of the class. The name of the namespace is made of nodes of its own. -/
def commentedClassTree : Node :=
  ⟨"program", true, 0, 44, 0,
    [⟨"php_tag", true, 0, 5, 0, []⟩,
      ⟨"namespace_definition", true, 6, 20, 1,
        [⟨"namespace", false, 6, 15, 1, []⟩,
          ⟨"namespace_name", true, 16, 19, 1,
            [⟨"name", true, 16, 17, 1, []⟩, ⟨"\\", false, 17, 18, 1, []⟩,
              ⟨"name", true, 18, 19, 1, []⟩]⟩,
          ⟨";", false, 19, 20, 1, []⟩]⟩,
      ⟨"comment", true, 21, 24, 2, []⟩,
      ⟨"comment", true, 25, 33, 3, []⟩,
      ⟨"class_declaration", true, 34, 44, 4,
        [⟨"class", false, 34, 39, 4, []⟩, ⟨"name", true, 40, 41, 4, []⟩,
          ⟨"declaration_list", true, 42, 44, 4,
            [⟨"\x7b", false, 42, 43, 4, []⟩, ⟨"\x7d", false, 43, 44, 4, []⟩]⟩]⟩]⟩

theorem isComment_remark (rest : List Char) : IsComment ('\n' :: rest) "# a".toList := by
  have hremark : IsComment ('\n' :: rest) ('#' :: ([' ', 'a'] ++ [])) := by
    refine .line (.inr ⟨rfl, by simp⟩) (by decide) (.inl rfl) (fun u v h => ?_)
      (.inr (.inl ⟨rest, .inl rfl⟩))
    have hmark : '?' ∈ [' ', 'a'] := by
      rw [h]
      simp
    exact absurd hmark (by decide)
  exact hremark

theorem isComment_documenting (rest : List Char) : IsComment rest "/** d */".toList := by
  refine .between (fun u v h => ?_) (.inl (by decide))
  have hends : ∀ w ∈ ("* d */".toList).tails, w.take 2 = ['*', '/'] → w.drop 2 = [] := by decide
  exact hends _ ((List.mem_tails _ _).mpr ⟨u, h.symm⟩) rfl

theorem parses_commentedClassTree : commentedClassTree.Parses Text.isBlank commentedClass where
  outside := by decide +kernel
  sound := by
    have hchildren : ∀ n ∈ commentedClassTree.nodes, n.children ≠ [] →
        InRow Text.isBlank commentedClass n.stop n.start n.children := by decide +kernel
    have hrow : ∀ n ∈ commentedClassTree.nodes,
        n.row = (commentedClass.take n.start).count 0x0A := by decide +kernel
    have hcomment : ∀ n ∈ commentedClassTree.nodes, n.type = "comment" →
        ((Text.decode (commentedClass.drop n.stop)).head? = some '\n' ∧
          n.text commentedClass = "# a".toList) ∨ n.text commentedClass = "/** d */".toList := by
      decide +kernel
    refine fun n hn => ⟨hchildren n hn, hrow n hn, fun hname => ?_⟩
    rcases hcomment n hn hname with ⟨hnext, htext⟩ | htext
    · obtain ⟨rest, hrest⟩ := List.head?_eq_some_iff.mp hnext
      rw [htext, hrest]
      exact isComment_remark rest
    · rw [htext]
      exact isComment_documenting _

/-- Of the two comments in front of the class the documenting one is a token. -/
theorem tokens_lossless_of_commentedClass :
    commentedClassTree.Parses Text.isBlank commentedClass ∧
      ∃ pieces : List Piece,
        Piece.join pieces = commentedClass ∧
        pieces.filterMap Piece.token =
          [⟨.other, "<?php", 1⟩, ⟨.kwNamespace, "namespace", 2⟩, ⟨.ident, "A\\B", 2⟩,
            ⟨.punct, ";", 2⟩, ⟨.docComment, "/** d */", 4⟩, ⟨.kwClass, "class", 5⟩,
            ⟨.ident, "C", 5⟩, ⟨.punct, "\x7b", 5⟩, ⟨.punct, "\x7d", 5⟩] ∧
        ∀ before p after, pieces = before ++ p :: after →
          p.Faithful Text.isBlank (1 + (Piece.join before).count 0x0A) (Piece.join after) := by
  obtain ⟨pieces, hjoin, htokens, hfaithful, -⟩ :=
    tokens_lossless (fun _ h => h) parses_commentedClassTree
  refine ⟨parses_commentedClassTree, pieces, hjoin.trans (by decide +kernel), ?_, hfaithful⟩
  rw [htokens]
  decide +kernel

end Marginalia.Php

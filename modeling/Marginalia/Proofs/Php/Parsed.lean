import Marginalia.Proofs.Php.Laid
import Marginalia.Proofs.Php.Lossless
import Marginalia.Proofs.Text.Decoding

/-!
# The tree of a source

The tree that is made of a source spans it, whatever its bytes are:

* `leavesFrom_relaid`: its leaves are laid out along the text. A name takes the lexemes with it that
  its segments are made of (`tail_front`), and nothing but a comment is called one
  (`leafType_comment`);
* `inRow_nodesFrom`: their nodes stand in a row in the bytes, since these can be cut wherever the
  text is cut (`exists_cut`);
* `parses_parse`: the tree is one of the source. So its tokens are a view of the source
  (`covers_tokenize`).
-/

namespace Marginalia.Php

/-! ## 1. White space -/

/-- White space as sources have it: blanks, and the hidden characters that separate words like
    blanks. -/
def isSpacing (c : Char) : Bool := Text.isBlank c || isHiddenBlank c

theorem isSpacing_of_isBlank {c : Char} (h : Text.isBlank c = true) : isSpacing c = true := by
  rw [isSpacing, h, Bool.true_or]

theorem isBlank_of_isPlainBlank {c : Char} (h : isPlainBlank c = true) : Text.isBlank c = true := by
  unfold isPlainBlank at h
  simp only [Bool.or_eq_true, Bool.and_eq_true, decide_eq_true_eq] at h
  rcases h with rfl | hcontrol
  · decide
  · exact (Text.Ranges.has_iff _ c).mpr ⟨(0x9, 0xD), List.mem_cons_self, hcontrol⟩

theorem isWhite_of_isGap {text : List Char} (h : ∀ c ∈ text, isGap c = true) :
    IsWhite isSpacing text := by
  intro c hc
  have hgap := h c hc
  unfold isGap at hgap
  unfold isSpacing
  exact Bool.or_eq_true_iff.mpr ((Bool.or_eq_true_iff.mp hgap).imp_left isBlank_of_isPlainBlank)

/-! ## 2. The lexemes of a leaf -/

theorem segments_front (ls : List Lexeme) (pending : List Lexeme) (wantsWord : Bool) :
    (segments pending wantsWord ls).flatten <+: pending ++ ls := by
  induction ls generalizing pending wantsWord with
  | nil => exact List.nil_prefix
  | cons l more ih =>
      rw [segments]
      split_ifs
      · have hmore := ih (pending ++ [l]) wantsWord
        rwa [List.append_assoc] at hmore
      · have hmore := ih [] false
        rw [List.nil_append] at hmore
        rw [List.flatten_cons, List.append_assoc, List.singleton_append]
        exact (List.prefix_append_right_inj pending).mpr (List.cons_prefix_cons.mpr ⟨rfl, hmore⟩)
      · have hmore := ih (pending ++ [l]) true
        rwa [List.append_assoc] at hmore
      · exact List.nil_prefix

theorem flatten_front {α : Type} {lss mss : List (List α)} (h : lss <+: mss) :
    lss.flatten <+: mss.flatten := by
  obtain ⟨rest, rfl⟩ := h
  rw [List.flatten_append]
  exact List.prefix_append _ _

/-- **The lexemes that belong to a leaf stand in front of those behind it.** -/
theorem tail_front (l : Lexeme) (p : Place) (type : LeafType) (more : List Lexeme) :
    l.tail p type more <+: more := by
  have hsegments := segments_front more []
  unfold Lexeme.tail
  split_ifs
  · unfold Place.nameTail
    dsimp only
    split_ifs
    · exact (flatten_front (List.dropLast_prefix _)).trans (hsegments false)
    · exact hsegments false
  · unfold Place.qualifiedTail
    dsimp only
    split_ifs
    · exact List.nil_prefix
    · exact List.nil_prefix
    · exact hsegments true
  · exact List.nil_prefix

/-- Only names and separators have lexemes that belong to them. -/
theorem kind_of_tail {l : Lexeme} {p : Place} {type : LeafType} {more : List Lexeme}
    (h : l.tail p type more ≠ []) : l.kind = .word ∨ l.kind = .sign := by
  unfold Lexeme.tail at h
  split at h
  · rename_i hword
    simp only [Bool.and_eq_true, decide_eq_true_eq] at hword
    exact .inl hword.1
  · split at h
    · rename_i hsign
      unfold Lexeme.isSign at hsign
      simp only [Bool.and_eq_true, decide_eq_true_eq] at hsign
      exact .inr hsign.1
    · exact absurd rfl h

theorem joined_nil (l : Lexeme) : joined l.kind l [] = l := by
  unfold joined
  rw [List.flatMap_nil, List.append_nil]

/-- A word or a sign is one also together with what belongs to it. -/
theorem admits_joined {after back : List Char} {l : Lexeme} {tail : List Lexeme}
    (hkind : tail ≠ [] → l.kind = .word ∨ l.kind = .sign)
    (h : l.kind.Admits (spread tail ++ back) l.text) (hback : back = after) :
    l.kind.Admits after (joined l.kind l tail).text := by
  subst hback
  cases htail : tail with
  | nil =>
      rw [htail] at h
      rw [joined_nil]
      exact h
  | cons first more =>
      rcases hkind (by rw [htail]; exact List.cons_ne_nil _ _) with hword | hsign
      · rw [hword]
        trivial
      · rw [hsign] at h ⊢
        obtain ⟨c, hc, hpart⟩ := h
        exact ⟨c, List.mem_append_left _ hc, hpart⟩

/-! ## 3. What is called a comment -/

section Words

variable (p : Place)

theorem keyword_ne_comment {w : String} {words : List String} (h : words.contains w = true)
    (hwords : "comment" ∉ words) : (LeafType.keyword w).name ≠ "comment" := by
  intro hw
  have hmem := List.contains_iff_mem.mp h
  rw [show w = "comment" from hw] at hmem
  exact hwords hmem

theorem word_ne_comment : LeafType.word.name ≠ "comment" := by decide

/-- A choice between two types. -/
theorem ite_ne_comment {c : Prop} [Decidable c] {t u : LeafType}
    (ht : c → t.name ≠ "comment") (hu : ¬c → u.name ≠ "comment") :
    (if c then t else u).name ≠ "comment" := by
  split
  · exact ht ‹c›
  · exact hu ‹¬c›

/-- A word is a keyword only if it is one of some words; otherwise it is a name. -/
theorem ite_keyword_ne_comment {c : Prop} [Decidable c] {w : String} {words : List String}
    (h : words.contains w = true) (hwords : "comment" ∉ words) :
    (if c then LeafType.keyword w else .word).name ≠ "comment" :=
  ite_ne_comment (fun _ => keyword_ne_comment h hwords) fun _ => word_ne_comment

theorem typeWordType_ne_comment (spot : TypeSpot) (text w : String) :
    (p.typeWordType spot text w).name ≠ "comment" := by
  cases spot with
  | result => exact ite_ne_comment (fun _ => by decide) fun _ => word_ne_comment
  | parameter =>
      exact ite_ne_comment (fun h => keyword_ne_comment h (by decide)) fun _ => word_ne_comment
  | member =>
      exact ite_ne_comment (fun h => keyword_ne_comment h (by decide)) fun _ => word_ne_comment

theorem plainWordType_ne_comment (text w : String) (next : Option Lexeme) :
    (p.plainWordType text w next).name ≠ "comment" := by
  have hone : ∀ v : String, (w == v) = true → [v].contains w = true := by
    intro v h
    rw [beq_iff_eq.mp h]
    simp
  unfold Place.plainWordType
  dsimp only
  refine ite_ne_comment (fun h => ?_) fun _ => ?_
  · exact ite_ne_comment (fun _ => word_ne_comment) fun _ =>
      keyword_ne_comment (hone _ h) (by decide)
  refine ite_ne_comment (fun h => ?_) fun _ => ?_
  · have htext : ["self", "parent"].contains text = true := by simpa using h
    exact ite_keyword_ne_comment htext (by decide)
  refine ite_ne_comment (fun _ => word_ne_comment) fun _ => ?_
  refine ite_ne_comment (fun _ => by decide) fun _ => ?_
  refine ite_ne_comment (fun h => ?_) fun _ => ?_
  · intro hw
    have hcomment : w = "comment" := hw
    rw [hcomment] at h
    cases h
  refine ite_ne_comment (fun _ => by decide) fun _ => ?_
  refine ite_ne_comment (fun h => ?_) fun _ => ?_
  · exact keyword_ne_comment (hone _ h) (by decide)
  refine ite_ne_comment (fun _ => ?_) fun _ => ?_
  · exact ite_ne_comment (fun h => keyword_ne_comment h (by decide)) fun _ => word_ne_comment
  refine ite_ne_comment (fun h => ?_) fun _ => ?_
  · have hw : ["array", "list", "match"].contains w = true := by simpa [or_assoc] using h
    exact ite_keyword_ne_comment hw (by decide)
  refine ite_ne_comment (fun h => ite_keyword_ne_comment (hone _ h) (by decide)) fun _ => ?_
  refine ite_ne_comment (fun h => ite_keyword_ne_comment (hone _ h) (by decide)) fun _ => ?_
  exact ite_ne_comment (fun h => keyword_ne_comment h (by decide)) fun _ => word_ne_comment

theorem wordType_ne_comment (text : String) (next : Option Lexeme) :
    (p.wordType text next).name ≠ "comment" := by
  unfold Place.wordType
  dsimp only
  refine ite_ne_comment (fun _ => word_ne_comment) fun _ => ?_
  refine ite_ne_comment (fun _ => by decide) fun _ => ?_
  split
  · exact typeWordType_ne_comment p _ _ _
  · exact plainWordType_ne_comment p _ _ _

end Words

theorem literalType_ne_comment (text : List Char) : literalType text ≠ "comment" := by
  unfold literalType
  split
  · decide
  · decide
  · decide
  · split <;> decide
  · split <;> decide
  · split <;> decide
  · split <;> decide

/-- **Nothing but a comment is called one.** -/
theorem leafType_comment {p : Place} {more : List Lexeme} {l : Lexeme} {after : List Char}
    (hadmits : l.kind.Admits after l.text) (h : (l.leafType p more).name = "comment") :
    l.kind = .comment := by
  unfold Lexeme.leafType at h
  split at h
  · exact absurd h (by decide)
  · exact absurd h (by decide)
  · exact absurd h (by decide)
  · assumption
  · exact absurd h (literalType_ne_comment _)
  · exact absurd h (by decide)
  · exact absurd h (by decide)
  · exact absurd h (wordType_ne_comment p _ _)
  · exact absurd h word_ne_comment
  · rename_i hsign
    rw [hsign] at hadmits
    obtain ⟨c, hc, hpart⟩ := hadmits
    have htext : l.text = "comment".toList := by
      rw [← show String.ofList l.text = "comment" from h, String.toList_ofList]
    have hparts := List.all_eq_true.mp (show "comment".toList.all isWordPart = true by decide)
    rw [hparts c (htext ▸ hc)] at hpart
    cases hpart

/-! ## 4. Leaves -/

/-- **The leaves of lexemes are laid out like these**, and those that are called comments are some.
    The first `inside` lexemes belong to a leaf that has been made already. -/
theorem leavesFrom_relaid {after : List Char} (ls : List Lexeme) {inside line : Nat} (p : Place)
    (h : Laid after line (ls.drop inside)) :
    Relaid after line (ls.drop inside) ((leavesFrom inside p ls).map Leaf.lexeme) ∧
      ∀ leaf ∈ leavesFrom inside p ls,
        leaf.type.name = "comment" → leaf.lexeme.kind = .comment := by
  induction ls generalizing inside line p with
  | nil =>
      rw [List.drop_nil]
      exact ⟨.refl .nil, nofun⟩
  | cons l more ih =>
      cases inside with
      | succ rest => exact ih p h
      | zero =>
          rw [leavesFrom]
          have hfront := tail_front l p (l.leafType p more) more
          have hkind : l.tail p (l.leafType p more) more ≠ [] → l.kind = .word ∨ l.kind = .sign :=
            kind_of_tail
          have hcomment : ∀ {after}, l.kind.Admits after l.text →
              (l.leafType p more).name = "comment" → l.kind = .comment := leafType_comment
          generalize l.leafType p more = type at hfront hkind hcomment ⊢
          generalize l.tail p type more = tail at hfront hkind ⊢
          obtain ⟨behind, rfl⟩ := hfront
          obtain ⟨hfirst, hbehind⟩ : Laid (spread behind ++ after) line (l :: tail) ∧
              Laid after (lineBehind line (spread (l :: tail))) behind := Laid.split h
          have hadmits : l.kind.Admits (spread tail ++ (spread behind ++ after)) l.text := by
            cases hfirst with
            | cons gap starts admits rest => exact admits
          have hdrop : (tail ++ behind).drop tail.length = behind := List.drop_left
          rw [← hdrop] at hbehind
          obtain ⟨hrelaid, htyped⟩ := ih (p.afterLeaf _ (firstCode? (tail ++ behind))) hbehind
          rw [hdrop] at hrelaid
          refine ⟨(joined_relaid (admits_joined hkind hadmits rfl) hfirst).append hrelaid,
            List.forall_mem_cons.mpr ⟨?_, htyped⟩⟩
          intro hname
          cases tail with
          | nil => exact hcomment hadmits hname
          | cons first rest =>
              have hne : "qualified_name" ≠ "comment" := by decide
              exact absurd hname hne

/-- The leaves of a text are laid out along it, up to white space at its end. -/
theorem laid_leaves (text : List Char) :
    ∃ trailing, IsWhite isSpacing trailing ∧
      text = spread ((leaves text).map Leaf.lexeme) ++ trailing ∧
      Laid trailing 1 ((leaves text).map Leaf.lexeme) ∧
      ∀ leaf ∈ leaves text, leaf.type.name = "comment" → leaf.lexeme.kind = .comment := by
  obtain ⟨trailing, htrailing, htext, hlaid⟩ := laid_lexemes text
  have hall : ∀ ls : List Lexeme, ls.drop 0 = ls := fun _ => List.drop_zero
  rw [← hall (lexemes _)] at hlaid
  have hjoined := joinNames_relaid _ false hlaid
  have hlaid' := hjoined.laid
  rw [← hall (joinNames _ _ _)] at hlaid'
  obtain ⟨hleaves, htyped⟩ := leavesFrom_relaid _ .initial hlaid'
  refine ⟨trailing, isWhite_of_isGap htrailing, ?_, hleaves.laid, htyped⟩
  have hspread := hleaves.text
  rw [hall, hjoined.text, hall] at hspread
  unfold leaves
  rw [hspread, ← htext]

/-! ## 5. Nodes -/

theorem slice_add (source : List UInt8) (start n : Nat) :
    slice source start (start + n) = (source.drop start).take n := by
  rw [slice, Nat.add_sub_cancel_left]

/-- The line behind a stretch of bytes, given its text. -/
theorem lineBehind_slice {source : List UInt8} {start stop : Nat} {text : List Char}
    (h : start ≤ stop) (htext : Text.decode (slice source start stop) = text) :
    lineBehind (1 + (source.take start).count 0x0A) text =
      1 + (source.take stop).count 0x0A := by
  rw [lineBehind, ← htext, Text.count_decode, Nat.add_assoc, ← List.count_append, take_slice h]

/-- **A source can be cut wherever its text is cut**: behind a place, and behind the bytes that the
    text in front of the cut is read from. -/
theorem exists_cut {source : List UInt8} {start : Nat} {front back : List Char}
    (hstart : start ≤ source.length) (h : Text.decode (source.drop start) = front ++ back) :
    ∃ stop, start + Text.extent front.length (source.drop start) = stop ∧
      (start ≤ stop ∧ stop ≤ source.length) ∧ Text.decode (slice source start stop) = front ∧
      Text.decode (source.drop stop) = back := by
  obtain ⟨hfront, hback⟩ := Text.decode_cut h
  have hlength := Text.extent_le front.length (source.drop start)
  rw [List.length_drop] at hlength
  refine ⟨_, rfl, ⟨Nat.le_add_right start _, by omega⟩, ?_, ?_⟩
  · rw [slice_add]
    exact hfront
  · rw [← List.drop_drop]
    exact hback

/-- The first node ends where its text does, and the others stand behind it. -/
theorem nodesFrom_cons {source : List UInt8} {l : Leaf} {more : List Leaf} {start first stop : Nat}
    (hfirst : start + Text.extent l.lexeme.gap.length (source.drop start) = first)
    (hstop : first + Text.extent l.lexeme.text.length (source.drop first) = stop) :
    nodesFrom start (source.drop start) (l :: more) =
      ⟨l.type.name, l.type.named, first, stop, l.lexeme.line - 1, []⟩ ::
        nodesFrom stop (source.drop stop) more := by
  subst hstop
  subst hfirst
  rw [nodesFrom, List.drop_drop, List.drop_drop, Nat.add_assoc start]

/-- **The nodes of leaves stand in a row** in the bytes that their text is read from. -/
theorem inRow_nodesFrom {source : List UInt8} {after : List Char} (hafter : IsWhite isSpacing after)
    (ls : List Leaf) {start : Nat} (hstart : start ≤ source.length)
    (hlaid : Laid after (1 + (source.take start).count 0x0A) (ls.map Leaf.lexeme))
    (htext : Text.decode (source.drop start) = spread (ls.map Leaf.lexeme) ++ after)
    (htyped : ∀ leaf ∈ ls, leaf.type.name = "comment" → leaf.lexeme.kind = .comment) :
    InRow isSpacing source source.length start (nodesFrom start (source.drop start) ls) ∧
      ∀ n ∈ Node.nodesOf (nodesFrom start (source.drop start) ls), n.Sound isSpacing source := by
  induction ls generalizing start with
  | nil =>
      refine ⟨⟨hstart, ?_⟩, nofun⟩
      rw [slice, ← List.length_drop, List.take_length, htext]
      exact hafter
  | cons l more ih =>
      obtain ⟨hcalled, htyped⟩ := List.forall_mem_cons.mp htyped
      rw [List.map_cons] at hlaid htext
      rw [spread_cons, List.append_assoc, List.append_assoc] at htext
      obtain ⟨first, hfirst, ⟨hle, hbound⟩, hgap, hrest⟩ := exists_cut hstart htext
      obtain ⟨stop, hstop, ⟨hle', hbound'⟩, hword, hbehind⟩ := exists_cut hbound hrest
      rw [nodesFrom_cons hfirst hstop]
      cases hlaid with
      | cons spaces starts admits laid =>
          rw [lineBehind_slice hle hgap] at starts
          rw [lineBehind_append, lineBehind_slice hle hgap, lineBehind_slice hle' hword] at laid
          obtain ⟨hrow, hsound⟩ := ih hbound' laid hbehind htyped
          refine ⟨⟨⟨hle, hle'⟩, ?_, hrow⟩,
            List.forall_mem_cons.mpr ⟨⟨absurd rfl, ?_, fun hname => ?_⟩, hsound⟩⟩
          · show IsWhite isSpacing (Text.decode (slice source start first))
            rw [hgap]
            exact isWhite_of_isGap spaces
          · show l.lexeme.line - 1 = (source.take first).count 0x0A
            rw [starts, Nat.add_sub_cancel_left]
          · show IsComment (Text.decode (source.drop stop)) (Text.decode (slice source first stop))
            rw [hcalled hname] at admits
            rw [hbehind, hword]
            exact admits

/-- **The tree of a source spans it.** -/
theorem parses_parse (source : List UInt8) : (parse source).Parses isSpacing source := by
  obtain ⟨trailing, htrailing, htext, hlaid, htyped⟩ :=
    laid_leaves (Text.decode (source.drop (Text.markLength source)))
  have hmark : 1 = 1 + (source.take (Text.markLength source)).count 0x0A := by rw [count_mark]
  rw [hmark] at hlaid
  obtain ⟨hrow, hsound⟩ :=
    inRow_nodesFrom htrailing _ (Text.markLength_le source) hlaid htext htyped
  unfold parse
  dsimp only
  generalize nodesFrom (Text.markLength source) _ _ = nodes at hrow hsound ⊢
  have hempty : ∀ place, IsWhite isSpacing (Text.decode (slice source place place)) := by
    intro place
    rw [slice, Nat.sub_self, List.take_zero]
    exact isWhite_nil
  have hprogram : "program" ≠ "comment" := by decide
  cases nodes with
  | nil =>
      refine ⟨⟨⟨hrow.1, Nat.le_refl _⟩, hrow.2, Nat.le_refl _, hempty _⟩,
        List.forall_mem_singleton.mpr ⟨absurd rfl, ?_, fun h => absurd h hprogram⟩⟩
      rw [List.take_length]
  | cons first more =>
      obtain ⟨⟨hle, hle'⟩, hwhite, hmore⟩ := hrow
      have hfirst := hsound first (Node.mem_nodesOf_head first more)
      refine ⟨⟨⟨hle, Nat.le_trans hle' hmore.le⟩, hwhite, Nat.le_refl _, hempty _⟩,
        List.forall_mem_cons.mpr ⟨⟨fun _ => ?_, hfirst.row, fun h => absurd h hprogram⟩, hsound⟩⟩
      exact ⟨⟨Nat.le_refl _, hle'⟩, hempty _, hmore⟩

/-- The tokens of a source are a view of it. -/
theorem covers_tokenize (source : List UInt8) :
    Covers isSpacing source (Text.markLength source) source.length (tokenize source) :=
  (parses_parse source).covers fun _ => isSpacing_of_isBlank

end Marginalia.Php

import Marginalia.Php.Source
import Marginalia.Proofs.Php.Extent

/-!
# Lexemes are laid out along their text

The lexemes of a source, each with the blanks in front of it, are the source from its start to the
blanks at its end:

* `spread`: the text of lexemes in a row, with the blanks in front of each;
* `Laid`: lexemes that stand in front of a text from a line on. Between them are only blanks, each
  knows its line, and the text of each is one of its kind in front of what follows;
* `laid_lexemesFrom`: so are the lexemes of every text;
* `joinNames_relaid`: joining names keeps the layout.
-/

namespace Marginalia.Php

/-! ## 1. Rows of lexemes -/

/-- The text of lexemes in a row. -/
def spread (ls : List Lexeme) : List Char := ls.flatMap fun l => l.gap ++ l.text

theorem spread_cons (l : Lexeme) (ls : List Lexeme) :
    spread (l :: ls) = l.gap ++ l.text ++ spread ls := rfl

theorem spread_append (ls ms : List Lexeme) : spread (ls ++ ms) = spread ls ++ spread ms :=
  List.flatMap_append

/-- The line behind a text that starts on a line. -/
def lineBehind (line : Nat) (text : List Char) : Nat := line + text.count '\n'

theorem lineBehind_append (line : Nat) (u v : List Char) :
    lineBehind line (u ++ v) = lineBehind (lineBehind line u) v := by
  unfold lineBehind
  rw [List.count_append, Nat.add_assoc]

theorem lineBehind_reverse (line : Nat) (text : List Char) :
    lineBehind line text.reverse = lineBehind line text := by
  unfold lineBehind
  rw [List.count_reverse]

theorem lineBehind_singleton (line : Nat) (c : Char) :
    lineBehind line [c] = if c = '\n' then line + 1 else line := by
  unfold lineBehind
  rw [List.count_singleton]
  by_cases hc : c = '\n'
  · rw [if_pos hc, if_pos (beq_iff_eq.mpr hc)]
  · rw [if_neg hc, if_neg (by simpa using hc), Nat.add_zero]

/-- **Lexemes are laid out from a line on, in front of a text.** -/
inductive Laid (after : List Char) : Nat → List Lexeme → Prop
  | nil {line : Nat} : Laid after line []
  | cons {line : Nat} {l : Lexeme} {more : List Lexeme} (gap : ∀ c ∈ l.gap, isGap c = true)
      (starts : l.line = lineBehind line l.gap)
      (admits : l.kind.Admits (spread more ++ after) l.text)
      (rest : Laid after (lineBehind line (l.gap ++ l.text)) more) : Laid after line (l :: more)

theorem Laid.append {after : List Char} {line : Nat} {ls ms : List Lexeme}
    (hls : Laid (spread ms ++ after) line ls) (hms : Laid after (lineBehind line (spread ls)) ms) :
    Laid after line (ls ++ ms) := by
  induction hls with
  | nil => exact hms
  | @cons line l more gap starts admits rest ih =>
      rw [spread_cons, lineBehind_append] at hms
      refine .cons gap starts ?_ (ih hms)
      show l.kind.Admits (spread (more ++ ms) ++ after) l.text
      rwa [spread_append, List.append_assoc]

theorem Laid.split {after : List Char} {line : Nat} {ls ms : List Lexeme}
    (h : Laid after line (ls ++ ms)) :
    Laid (spread ms ++ after) line ls ∧ Laid after (lineBehind line (spread ls)) ms := by
  induction ls generalizing line with
  | nil => exact ⟨.nil, h⟩
  | cons l ls ih =>
      cases h with
      | cons gap starts admits rest =>
          obtain ⟨hls, hms⟩ := ih rest
          change l.kind.Admits (spread (ls ++ ms) ++ after) _ at admits
          rw [spread_append, List.append_assoc] at admits
          rw [spread_cons, lineBehind_append]
          exact ⟨.cons gap starts admits hls, hms⟩

/-! ## 2. The lexemes of a text -/

/-- **The lexemes of a text are laid out along it**, up to blanks at its end. The text starts on
    `line`; `gap` stands before it, latest first, from `start` on, and the first `inside` characters
    belong to a lexeme that has been cut already. -/
theorem laid_lexemesFrom (text : List Char) {inside line start : Nat} {gap : List Char}
    (hgap : ∀ c ∈ gap, isGap c = true)
    (hline : lineBehind line (text.take inside) = lineBehind start gap) (regions : List Region)
    (before : List Lexeme) :
    ∃ trailing, (∀ c ∈ trailing, isGap c = true) ∧
      gap.reverse ++ text.drop inside =
        spread (lexemesFrom inside regions before gap line text) ++ trailing ∧
      Laid trailing start (lexemesFrom inside regions before gap line text) := by
  induction text generalizing inside line start gap regions before with
  | nil =>
      refine ⟨gap.reverse, fun c hc => hgap c (List.mem_reverse.mp hc), ?_, .nil⟩
      rw [List.drop_nil, List.append_nil]
      rfl
  | cons c rest ih =>
      cases inside with
      | succ more =>
          rw [List.take_succ_cons, ← List.singleton_append, lineBehind_append] at hline
          rw [lexemesFrom, ← lineBehind_singleton]
          exact ih hgap hline regions before
      | zero =>
          have hstart : line = lineBehind start gap := hline
          have hfound := lexemeAt?_fronts regions before c rest
          rw [lexemesFrom, ← lineBehind_singleton]
          dsimp only
          cases hlexeme : lexemeAt? regions before (c :: rest) with
          | none =>
              rw [hlexeme] at hfound
              have hgap' : ∀ d ∈ c :: gap, isGap d = true := List.forall_mem_cons.mpr ⟨hfound, hgap⟩
              have hline' : lineBehind (lineBehind line [c]) (rest.take 0) =
                  lineBehind start (c :: gap) := by
                have hrow : lineBehind line [c] = lineBehind start (c :: gap) := by
                  rw [hstart, ← lineBehind_reverse start gap, ← lineBehind_append,
                    ← List.reverse_cons, lineBehind_reverse]
                exact hrow
              obtain ⟨trailing, htrailing, htext, hlaid⟩ := ih hgap' hline' regions before
              refine ⟨trailing, htrailing, ?_, hlaid⟩
              rw [List.reverse_cons, List.append_assoc] at htext
              exact htext
          | some found =>
              obtain ⟨kind, text, next⟩ := found
              rw [hlexeme] at hfound
              obtain ⟨hfront, hne, hadmits⟩ := hfound
              cases text with
              | nil => exact absurd rfl hne
              | cons d text =>
                  obtain ⟨behind, hbehind⟩ := hfront
                  obtain ⟨rfl, rfl⟩ : d = c ∧ text ++ behind = rest := List.cons.inj hbehind
                  have hline' : lineBehind (lineBehind line [d])
                      ((text ++ behind).take text.length) =
                        lineBehind (lineBehind start (gap.reverse ++ d :: text)) [] := by
                    rw [List.take_left, ← lineBehind_append, hstart, lineBehind_append start,
                      lineBehind_reverse]
                    rfl
                  have hnone : ∀ c ∈ ([] : List Char), isGap c = true := nofun
                  obtain ⟨trailing, htrailing, htext, hlaid⟩ := ih hnone hline' next
                    (remember before ⟨kind, gap.reverse, d :: text, line⟩)
                  rw [List.drop_left, List.reverse_nil, List.nil_append] at htext
                  rw [List.length_cons, ← List.cons_append, ← List.length_cons, List.drop_left,
                    htext] at hadmits
                  dsimp only
                  rw [List.length_cons, Nat.add_sub_cancel]
                  refine ⟨trailing, htrailing, ?_, .cons ?_ ?_ hadmits hlaid⟩
                  · rw [List.drop_zero, spread_cons, List.append_assoc, List.append_assoc, ← htext]
                    rfl
                  · exact fun c hc => hgap c (List.mem_reverse.mp hc)
                  · rw [lineBehind_reverse]
                    exact hstart

/-- The lexemes of a source are laid out along its text. -/
theorem laid_lexemes (text : List Char) :
    ∃ trailing, (∀ c ∈ trailing, isGap c = true) ∧ text = spread (lexemes text) ++ trailing ∧
      Laid trailing 1 (lexemes text) := by
  have hnone : ∀ c ∈ ([] : List Char), isGap c = true := nofun
  have hline : lineBehind 1 (text.take 0) = lineBehind 1 [] := rfl
  exact laid_lexemesFrom text hnone hline [.outside] []

/-! ## 3. Joined lexemes -/

/-- **Lexemes stand for others in front of a text**: they are laid out there, with the same text. -/
structure Relaid (after : List Char) (line : Nat) (ls ms : List Lexeme) : Prop where
  text : spread ms = spread ls
  laid : Laid after line ms

namespace Relaid

variable {after : List Char} {line : Nat} {ls ls' ms ms' : List Lexeme}

theorem refl (h : Laid after line ls) : Relaid after line ls ls := ⟨rfl, h⟩

theorem append (h : Relaid (spread ms ++ after) line ls ls')
    (h' : Relaid after (lineBehind line (spread ls)) ms ms') :
    Relaid after line (ls ++ ms) (ls' ++ ms') where
  text := by rw [spread_append, spread_append, h.text, h'.text]
  laid := by
    refine .append ?_ ?_
    · rw [h'.text]
      exact h.laid
    · rw [h.text]
      exact h'.laid

end Relaid

theorem joined_relaid {after : List Char} {line : Nat} {kind : LexemeKind} {first : Lexeme}
    {more : List Lexeme} (hkind : kind.Admits after (joined kind first more).text)
    (h : Laid after line (first :: more)) :
    Relaid after line (first :: more) [joined kind first more] := by
  have htext : spread [joined kind first more] = spread (first :: more) := by
    rw [spread_cons, spread_cons]
    unfold joined spread
    simp
  refine ⟨htext, ?_⟩
  cases h with
  | cons gap starts admits rest => exact .cons gap starts hkind .nil

/-- A list between a prefix and a suffix that do not meet. -/
theorem eq_append_middle {α : Type} {front back l : List α} (hfront : front <+: l)
    (hback : back <:+ l) (hlength : front.length + back.length ≤ l.length) :
    l = front ++ (l.drop front.length).take (l.length - front.length - back.length) ++ back := by
  have hback : (l.drop front.length).drop (l.length - front.length - back.length) = back := by
    rw [List.drop_drop, show front.length + (l.length - front.length - back.length) =
      l.length - back.length by omega]
    exact (List.suffix_iff_eq_drop.mp hback).symm
  calc
    l = front ++ l.drop front.length := (List.prefix_iff_eq_append.mp hfront).symm
    _ = front ++ ((l.drop front.length).take (l.length - front.length - back.length) ++
          (l.drop front.length).drop (l.length - front.length - back.length)) := by
        rw [List.take_append_drop]
    _ = _ := by rw [hback, List.append_assoc]

theorem joinedCode_relaid {after : List Char} {line : Nat} {inner : List Lexeme}
    (h : Laid after line inner) : Relaid after line inner (joinedCode inner) := by
  unfold joinedCode
  dsimp only
  split
  · exact ⟨rfl, h⟩
  · rename_i first more hmiddle
    have hfront := List.takeWhile_prefix (fun l : Lexeme => decide (l.kind = .comment)) (l := inner)
    have hback := List.reverse_suffix.mpr
      (List.takeWhile_prefix (fun l : Lexeme => decide (l.kind = .comment)) (l := inner.reverse))
    rw [List.reverse_reverse] at hback
    generalize inner.takeWhile (fun l => decide (l.kind = .comment)) = front at hmiddle hfront ⊢
    generalize (inner.reverse.takeWhile fun l => decide (l.kind = .comment)).reverse = back
      at hmiddle hback ⊢
    -- Something stands between the comments, so those in front are not those at the end.
    have hlength : front.length + back.length ≤ inner.length := by
      have hpos := congrArg List.length hmiddle
      rw [List.length_take, List.length_cons] at hpos
      omega
    have hinner := eq_append_middle hfront hback hlength
    rw [hmiddle, List.append_assoc] at hinner
    rw [hinner] at h ⊢
    obtain ⟨hlaidFront, hrest⟩ := h.split
    obtain ⟨hlaidMiddle, hlaidBack⟩ := hrest.split
    have hjoined : Relaid _ _ _ [joined .name first more] := joined_relaid trivial hlaidMiddle
    exact (Relaid.refl hlaidFront).append (hjoined.append (.refl hlaidBack))

theorem insideBraces_front (depth : Nat) (ls : List Lexeme) : insideBraces depth ls <+: ls := by
  fun_induction insideBraces depth ls with
  | case1 => exact List.nil_prefix
  | case2 => exact List.nil_prefix
  | case3 l more _ outer ih => exact List.cons_prefix_cons.mpr ⟨rfl, ih⟩
  | case4 depth l more _ _ ih => exact List.cons_prefix_cons.mpr ⟨rfl, ih⟩
  | case5 depth l more _ _ ih => exact List.cons_prefix_cons.mpr ⟨rfl, ih⟩

/-- **Joining names keeps lexemes laid out along their text.** The first `inside` of them have been
    joined already. -/
theorem joinNames_relaid {after : List Char} (ls : List Lexeme) {inside line : Nat}
    (afterSign : Bool) (h : Laid after line (ls.drop inside)) :
    Relaid after line (ls.drop inside) (joinNames inside afterSign ls) := by
  induction ls generalizing inside line afterSign with
  | nil =>
      rw [List.drop_nil]
      exact .refl .nil
  | cons l more ih =>
      cases inside with
      | succ rest => exact ih false h
      | zero =>
          obtain ⟨hfirst, hmore⟩ : Laid (spread more ++ after) line [l] ∧
              Laid after (lineBehind line (spread [l])) more := Laid.split h
          have hkept : ∀ {ms}, Relaid after (lineBehind line (spread [l])) more ms →
              Relaid after line (l :: more) (l :: ms) := fun hms => Relaid.append (.refl hfirst) hms
          have hnext : ∀ sign, Relaid after (lineBehind line (spread [l])) more
              (joinNames 0 sign more) := by
            intro sign
            have hnone : more.drop 0 = more := rfl
            rw [← hnone] at hmore
            exact ih sign hmore
          rw [joinNames]
          dsimp only
          split_ifs
          · exact hkept (hnext false)
          · refine hkept ?_
            obtain ⟨behind, hbehind⟩ := insideBraces_front 0 more
            generalize insideBraces 0 more = inner at hbehind ⊢
            subst hbehind
            obtain ⟨hinner, hrest⟩ := hmore.split
            have hdrop : (inner ++ behind).drop inner.length = behind := List.drop_left
            rw [← hdrop] at hrest
            have hnames := ih false hrest
            rw [hdrop] at hnames
            exact (joinedCode_relaid hinner).append hnames
          · exact hkept (hnext _)

end Marginalia.Php

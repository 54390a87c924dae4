import Mathlib.Data.List.Infix
import Mathlib.Tactic.SplitIfs
import Marginalia.Php.Lexeme
import Marginalia.Proofs.Php.Spans

/-!
# The extent of lexemes

Every lexeme is cut off the front of the text that is left, and something is always cut off:

* a lemma for each thing that can be cut off says that it stands in front;
* nothing behind the end of a comment is in it, and it ends where the text lets it end
  (`lineComment_ends`, `through_ends`);
* no sign is a word (`IsSign`);
* `LexemeKind.Fronts`: what is said of a lexeme and the text that it is cut off from
  (`lexemeAt?_fronts`).
-/

namespace Marginalia.Php

/-! ## 1. What is cut off stands in front -/

/-- Two pieces, the second in front of what the first one leaves. -/
theorem append_prefix_of_drop {u v cs : List Char} (hu : u <+: cs) (hv : v <+: cs.drop u.length) :
    u ++ v <+: cs := by
  obtain ⟨rest, rfl⟩ := hu
  rw [List.drop_left] at hv
  exact (List.prefix_append_right_inj u).mpr hv

theorem cons_front {u cs : List Char} (c : Char) (h : u <+: cs) : c :: u <+: c :: cs :=
  List.cons_prefix_cons.mpr ⟨rfl, h⟩

theorem through_front (stop cs : List Char) : through stop cs <+: cs := by
  induction cs with
  | nil => exact List.nil_prefix
  | cons c rest ih =>
      rw [through]
      split
      · exact List.isPrefixOf_iff_prefix.mp ‹_›
      · exact cons_front c ih

theorem lineComment_front (taken : Bool) (cs : List Char) : lineComment taken cs <+: cs := by
  induction cs generalizing taken with
  | nil => exact List.nil_prefix
  | cons c rest ih =>
      rw [lineComment]
      split
      · exact List.nil_prefix
      · split
        · exact List.nil_prefix
        · exact cons_front c (ih _)

theorem stringTail_front (opened : List Open) (escaped : Bool) (cs : List Char) :
    stringTail opened escaped cs <+: cs := by
  induction cs generalizing opened escaped with
  | nil => exact List.nil_prefix
  | cons c rest ih =>
      rw [stringTail]
      split
      · exact List.nil_prefix
      · split
        · exact cons_front c (ih _ _)
        · split
          · exact cons_front c (ih _ _)
          · exact cons_front c (ih _ _)

theorem heredocTail_front (label : List Char) (atLineStart : Bool) (cs : List Char) :
    heredocTail label atLineStart cs <+: cs := by
  induction cs generalizing atLineStart with
  | nil => exact List.nil_prefix
  | cons c rest ih =>
      rw [heredocTail]
      split
      · rename_i hends
        have hlabel := (Bool.and_eq_true_iff.mp (Bool.and_eq_true_iff.mp hends).2).1
        exact append_prefix_of_drop (List.takeWhile_prefix _) (List.isPrefixOf_iff_prefix.mp hlabel)
      · exact cons_front c (ih _)

theorem quotedLabel?_front {quote : Char} {cs label written : List Char}
    (h : quotedLabel? quote cs = some (label, written)) : written <+: quote :: cs := by
  unfold quotedLabel? at h
  dsimp only at h
  split at h
  · rename_i hquote
    cases h
    have hhead : (cs.drop (cs.takeWhile isWordPart).length).head? = some quote := by
      simpa using (Bool.and_eq_true_iff.mp hquote).2
    obtain ⟨rest, hrest⟩ := List.head?_eq_some_iff.mp hhead
    rw [List.cons_append]
    refine cons_front quote (append_prefix_of_drop (List.takeWhile_prefix _) ?_)
    rw [hrest]
    exact cons_front quote List.nil_prefix
  · cases h

theorem heredocLabel?_front {cs label written : List Char}
    (h : heredocLabel? cs = some (label, written)) : written <+: cs := by
  unfold heredocLabel? at h
  split at h
  · exact quotedLabel?_front h
  · exact quotedLabel?_front h
  · dsimp only at h
    split at h
    · cases h
    · cases h
      exact List.takeWhile_prefix _

theorem heredoc?_front {cs text : List Char} (h : heredoc? cs = some text) :
    text <+: cs ∧ text ≠ [] := by
  unfold heredoc? at h
  split at h
  · rename_i rest
    obtain ⟨⟨label, written⟩, hlabel, rfl⟩ := Option.map_eq_some_iff.mp h
    refine ⟨?_, by simp⟩
    have hwritten := append_prefix_of_drop (List.takeWhile_prefix _) (heredocLabel?_front hlabel)
    have htail := heredocTail_front label false (rest.drop ((rest.takeWhile fun d =>
      d = ' ' || d = '\t').length + written.length))
    rw [← List.length_append] at htail
    have hall := append_prefix_of_drop hwritten htail
    simpa [List.append_assoc] using hall
  · cases h

theorem digitRow_front (p : Char → Bool) (cs : List Char) : digitRow p cs <+: cs := by
  induction cs with
  | nil => exact List.nil_prefix
  | cons c rest ih =>
      rw [digitRow]
      split
      · exact cons_front c ih
      · split
        · exact cons_front c ih
        · exact List.nil_prefix

/-- At most one sign is kept of the character in front. -/
theorem filter_take_one_front (p : Char → Bool) (cs : List Char) : (cs.take 1).filter p <+: cs := by
  cases cs with
  | nil => exact List.nil_prefix
  | cons c rest =>
      rw [List.take_succ_cons, List.take_zero, List.filter_singleton]
      cases p c with
      | true => exact cons_front c List.nil_prefix
      | false => exact List.nil_prefix

theorem exponent_front (cs : List Char) : exponent cs <+: cs := by
  unfold exponent
  split
  · rename_i mark rest
    dsimp only
    split
    · rw [List.cons_append]
      exact cons_front mark
        (append_prefix_of_drop (filter_take_one_front _ rest) (digitRow_front _ _))
    · exact List.nil_prefix
  · exact List.nil_prefix

theorem pointNumber_front (cs : List Char) : pointNumber cs <+: cs := by
  have hwhole := digitRow_front Char.isDigit cs
  unfold pointNumber
  dsimp only
  split
  · rename_i rest hrest
    have hfraction := append_prefix_of_drop (digitRow_front Char.isDigit rest)
      (exponent_front (rest.drop (digitRow Char.isDigit rest).length))
    have hall : digitRow Char.isDigit cs ++ '.' :: (digitRow Char.isDigit rest ++
        exponent (rest.drop (digitRow Char.isDigit rest).length)) <+: cs := by
      refine append_prefix_of_drop hwhole ?_
      rw [hrest]
      exact cons_front '.' hfraction
    simpa [List.append_assoc] using hall
  · split
    · exact List.nil_prefix
    · exact append_prefix_of_drop hwhole (exponent_front _)

/-- A number of another base: without digits it is the zero in front. -/
theorem basedNumber_front (p : Char → Bool) (mark : Char) (rest : List Char) :
    (match digitRow p rest with
      | [] => ['0']
      | digits => '0' :: mark :: digits) <+: '0' :: mark :: rest := by
  split
  · exact cons_front '0' List.nil_prefix
  · exact cons_front '0' (cons_front mark (digitRow_front p rest))

theorem wholeNumber_front (cs : List Char) : wholeNumber cs <+: cs := by
  unfold wholeNumber
  split
  · rename_i mark rest
    dsimp only
    split
    · exact basedNumber_front _ mark rest
    · split
      · exact basedNumber_front _ mark rest
      · split
        · exact cons_front '0' (cons_front mark (digitRow_front _ rest))
        · exact cons_front '0' (digitRow_front _ _)
  · exact digitRow_front _ _

theorem number_front (cs : List Char) : number cs <+: cs := by
  unfold number
  split
  · exact pointNumber_front cs
  · exact wholeNumber_front cs

theorem digitRow_ne_nil {p : Char → Bool} {c : Char} (h : p c = true) (rest : List Char) :
    digitRow p (c :: rest) ≠ [] := by
  rw [digitRow, if_pos h]
  exact List.cons_ne_nil _ _

theorem wholeNumber_ne_nil {c : Char} (h : c.isDigit = true) (rest : List Char) :
    wholeNumber (c :: rest) ≠ [] := by
  unfold wholeNumber
  split
  · dsimp only
    repeat' split
    all_goals exact List.cons_ne_nil _ _
  · exact digitRow_ne_nil h rest

/-- A number in front is never empty: it starts with a digit, or with a point and a digit. -/
theorem number_ne_nil {c : Char} {rest : List Char} (h : c.isDigit = true ∨ c = '.') :
    number (c :: rest) ≠ [] := by
  have hlonger : wholeNumber (c :: rest) ≠ [] ∨ pointNumber (c :: rest) ≠ [] := by
    rcases h with h | rfl
    · exact .inl (wholeNumber_ne_nil h rest)
    · refine .inr ?_
      have hwhole : digitRow Char.isDigit ('.' :: rest) = [] := rfl
      unfold pointNumber
      rw [hwhole]
      exact List.cons_ne_nil _ _
  unfold number
  intro hnil
  split at hnil
  · rename_i hlength
    rw [hnil] at hlength
    exact Nat.not_lt_zero _ hlength
  · rename_i hlength
    rw [hnil] at hlength
    have hpoint := List.length_eq_zero_iff.mp (Nat.eq_zero_of_not_pos hlength)
    exact hlonger.elim (· hnil) (· hpoint)

theorem sign_front (cs : List Char) : sign cs <+: cs := by
  unfold sign
  split
  · rename_i s hs
    have hfront : s.toList.isPrefixOf cs = true := by simpa using List.find?_some hs
    exact List.isPrefixOf_iff_prefix.mp hfront
  · exact List.take_prefix 1 cs

theorem sign_ne_nil (c : Char) (rest : List Char) : sign (c :: rest) ≠ [] := by
  unfold sign
  split
  · rename_i s hs
    have hsigns : ∀ s ∈ longSigns, s.toList ≠ [] := by decide
    exact hsigns s (List.mem_of_find?_eq_some hs)
  · exact List.cons_ne_nil _ _

theorem simpleWord_front (cs : List Char) : simpleWord cs <+: cs := List.takeWhile_prefix _

theorem simpleWord_ne_nil {c : Char} (h : isWordStart c = true) (rest : List Char) :
    simpleWord (c :: rest) ≠ [] := by
  have hpart : isWordPart c = true := by
    unfold isWordPart
    rw [h, Bool.true_or]
  unfold simpleWord
  rw [List.takeWhile_cons_of_pos hpart]
  exact List.cons_ne_nil _ _

theorem delegation?_front {c : Char} {rest text : List Char}
    (h : delegation? (c :: rest) = some text) : text <+: c :: rest ∧ text ≠ [] := by
  unfold delegation? at h
  dsimp only at h
  split at h
  · cases h
    exact ⟨List.take_prefix _ _, List.cons_ne_nil _ _⟩
  · cases h

theorem shellText_front (taken : Bool) (cs : List Char) : shellText taken cs <+: cs := by
  induction cs generalizing taken with
  | nil => exact List.nil_prefix
  | cons c rest ih =>
      rw [shellText]
      split
      · exact List.nil_prefix
      · exact cons_front c (ih _)

theorem beforeTag_front (cs : List Char) : beforeTag cs <+: cs := by
  fun_induction beforeTag cs with
  | case1 => exact List.nil_prefix
  | case2 => exact List.nil_prefix
  | case3 c rest hne ih => exact cons_front c ih

/-- Text outside of code is not empty where no tag is in front. -/
theorem beforeTag_ne_nil {c : Char} {rest : List Char} (h : startsWith "<?" (c :: rest) = false) :
    beforeTag (c :: rest) ≠ [] := by
  unfold beforeTag
  split
  · rename_i heq
    cases heq
  · rename_i more heq
    rw [heq] at h
    cases h
  · rename_i heq
    cases heq
    exact List.cons_ne_nil _ _

theorem outsideText_front (cs : List Char) : outsideText cs <+: cs := by
  unfold outsideText
  dsimp only
  split
  · refine List.IsPrefix.trans ?_ (beforeTag_front cs)
    have hsuffix := List.reverse_prefix.mpr (List.dropWhile_suffix isPlainBlank
      (l := (beforeTag cs).reverse))
    rwa [List.reverse_reverse] at hsuffix
  · exact beforeTag_front cs

theorem outsideText_ne_nil {c : Char} {rest : List Char}
    (h : startsWith "<?" (c :: rest) = false) : outsideText (c :: rest) ≠ [] := by
  unfold outsideText
  dsimp only
  split
  · rename_i hlast
    intro hnil
    rw [hnil] at hlast
    cases hlast
  · exact beforeTag_ne_nil h

theorem openTag_front (cs : List Char) : openTag cs <+: cs := by
  unfold openTag
  split
  · exact List.take_prefix _ _
  · split <;> exact List.take_prefix _ _

theorem openTag_ne_nil (c : Char) (rest : List Char) : openTag (c :: rest) ≠ [] := by
  unfold openTag
  split
  · exact List.cons_ne_nil _ _
  · split <;> exact List.cons_ne_nil _ _

/-! ## 2. Comments -/

/-- The closing mark is found where it is first. -/
theorem through_only (cs u v : List Char) (h : through ['*', '/'] cs = u ++ '*' :: '/' :: v) :
    v = [] := by
  induction cs generalizing u with
  | nil => cases u <;> cases h
  | cons c rest ih =>
      rw [through] at h
      split at h
      · cases u with
        | nil =>
            cases h
            rfl
        | cons d u =>
            have hlength := congrArg List.length h
            simp at hlength
            omega
      · rename_i hstop
        cases u with
        | cons d u => exact ih u (List.cons.inj h).2
        | nil =>
            obtain ⟨rfl, hrest⟩ := List.cons.inj h
            obtain ⟨more, hmore⟩ := through_front ['*', '/'] rest
            rw [hrest] at hmore
            refine absurd ?_ hstop
            rw [← hmore]
            rfl

theorem through_ends (stop cs : List Char) :
    stop <:+ through stop cs ∨ cs.drop (through stop cs).length = [] := by
  induction cs with
  | nil => exact .inr rfl
  | cons c rest ih =>
      rw [through]
      split
      · exact .inl (List.suffix_refl stop)
      · rcases ih with hsuffix | hall
        · exact .inl (hsuffix.trans (List.suffix_cons c _))
        · exact .inr hall

theorem lineComment_oneLine (taken : Bool) (cs : List Char) :
    '\n' ∉ lineComment taken cs ∧ '\r' ∉ lineComment taken cs := by
  induction cs generalizing taken with
  | nil => exact ⟨nofun, nofun⟩
  | cons c rest ih =>
      rw [lineComment]
      split
      · exact ⟨nofun, nofun⟩
      · rename_i hc
        rw [Bool.or_eq_true, decide_eq_true_eq, decide_eq_true_eq] at hc
        obtain ⟨hfeed, hreturn⟩ := not_or.mp hc
        split
        · exact ⟨nofun, nofun⟩
        · obtain ⟨hfeeds, hreturns⟩ := ih (!taken && c = '?')
          exact ⟨fun h => (List.mem_cons.mp h).elim (fun heq => hfeed heq.symm) hfeeds,
            fun h => (List.mem_cons.mp h).elim (fun heq => hreturn heq.symm) hreturns⟩

/-- The tag that closes code is passed over only if its first character was taken by another one. -/
theorem lineComment_open (taken : Bool) (cs u v : List Char)
    (h : lineComment taken cs = u ++ '?' :: '>' :: v) :
    u.getLast? = some '?' ∨ (u = [] ∧ taken = true) := by
  induction cs generalizing taken u with
  | nil => cases u <;> cases h
  | cons c rest ih =>
      rw [lineComment] at h
      split at h
      · cases u <;> cases h
      · split at h
        · cases u <;> cases h
        · rename_i htag
          cases u with
          | nil =>
              obtain ⟨rfl, hrest⟩ := List.cons.inj h
              obtain ⟨more, hmore⟩ := lineComment_front (!taken && '?' = '?') rest
              rw [hrest] at hmore
              refine .inr ⟨rfl, ?_⟩
              rw [← hmore] at htag
              simpa using htag
          | cons d u =>
              obtain ⟨rfl, hrest⟩ := List.cons.inj h
              rcases ih _ u hrest with hlast | ⟨rfl, htaken⟩
              · left
                rw [List.getLast?_cons, hlast]
                rfl
              · left
                have hc : c = '?' := by simpa using (Bool.and_eq_true_iff.mp htaken).2
                rw [hc]
                rfl

theorem lineComment_ends (taken : Bool) (cs : List Char) :
    EndsRemark (cs.drop (lineComment taken cs).length) := by
  induction cs generalizing taken with
  | nil => exact .inl rfl
  | cons c rest ih =>
      rw [lineComment]
      split
      · rename_i hc
        rw [Bool.or_eq_true, decide_eq_true_eq, decide_eq_true_eq] at hc
        rcases hc with rfl | rfl
        · exact .inr (.inl ⟨rest, .inl rfl⟩)
        · exact .inr (.inl ⟨rest, .inr rfl⟩)
      · split
        · rename_i htag
          simp only [Bool.and_eq_true, decide_eq_true_eq] at htag
          obtain ⟨⟨-, rfl⟩, hnext⟩ := htag
          obtain ⟨more, rfl⟩ := List.head?_eq_some_iff.mp hnext
          exact .inr (.inr (cons_front '?' (cons_front '>' List.nil_prefix)))
        · exact ih _

/-! ## 3. Signs -/

/-- The text is a sign: something in it is no part of a word. -/
def IsSign (text : List Char) : Prop := ∃ c ∈ text, isWordPart c = false

theorem isWordPart_of_isPlainBlank {c : Char} (h : isPlainBlank c = true) :
    isWordPart c = false := by
  unfold isPlainBlank at h
  simp only [Bool.or_eq_true, Bool.and_eq_true, decide_eq_true_eq] at h
  rcases h with rfl | ⟨hlow, hhigh⟩
  · decide
  · have hcases : c.toNat = 9 ∨ c.toNat = 10 ∨ c.toNat = 11 ∨ c.toNat = 12 ∨ c.toNat = 13 := by
      omega
    rw [← Char.ofNat_toNat c]
    rcases hcases with h | h | h | h | h <;> rw [h] <;> decide

theorem isSign_sign {c : Char} {rest : List Char} (hword : isWordStart c = false)
    (hdigit : c.isDigit = false) : IsSign (sign (c :: rest)) := by
  unfold sign
  split
  · rename_i s hs
    have hsigns : ∀ s ∈ longSigns, s.toList.all isWordPart = false := by decide
    obtain ⟨c, hc, hpart⟩ := List.all_eq_false.mp (hsigns s (List.mem_of_find?_eq_some hs))
    exact ⟨c, hc, Bool.eq_false_iff.mpr hpart⟩
  · refine ⟨c, List.mem_cons_self, ?_⟩
    rw [isWordPart, hword, hdigit, Bool.or_false]

theorem isSign_delegation {cs text : List Char} (h : delegation? cs = some text) : IsSign text := by
  unfold delegation? at h
  dsimp only at h
  split at h
  · rename_i hyield
    simp only [Bool.and_eq_true, Bool.not_eq_true'] at hyield
    cases h
    cases hblanks : (cs.drop 5).takeWhile isPlainBlank with
    | nil =>
        rw [hblanks] at hyield
        cases hyield.1.1.2
    | cons c blanks =>
        have hc : c ∈ (cs.drop 5).takeWhile isPlainBlank := by
          rw [hblanks]
          exact List.mem_cons_self
        refine ⟨c, ?_, isWordPart_of_isPlainBlank (List.all_eq_true.mp List.all_takeWhile c hc)⟩
        rw [List.prefix_iff_eq_take.mp (List.takeWhile_prefix isPlainBlank), hblanks] at hc
        rw [List.take_add, List.take_add]
        exact List.mem_append_left _ (List.mem_append_right _ hc)
  · cases h

/-! ## 4. Lexemes -/

/-- What is said of the text of a lexeme, in front of what is left. -/
def LexemeKind.Admits (after text : List Char) : LexemeKind → Prop
  | .comment => IsComment after text
  | .sign => IsSign text
  | _ => True

/-- **What is said of a lexeme and the text that it is cut off from**: it stands in front, it is not
    empty, and its text is one of its kind. -/
structure LexemeKind.Fronts (kind : LexemeKind) (text cs : List Char) : Prop where
  front : text <+: cs
  nonempty : text ≠ []
  admits : kind.Admits (cs.drop text.length) text

namespace LexemeKind.Fronts

variable {kind : LexemeKind} {c : Char} {text rest : List Char}

/-- What starts with the next character. -/
theorem cons (h : text <+: rest) (hadmits : kind.Admits (rest.drop text.length) (c :: text)) :
    kind.Fronts (c :: text) (c :: rest) :=
  ⟨cons_front c h, List.cons_ne_nil _ _, hadmits⟩

/-- What is one sign with the next character. -/
theorem signed (hc : isWordPart c = false) (h : text <+: rest) :
    LexemeKind.sign.Fronts (c :: text) (c :: rest) :=
  .cons h ⟨c, List.mem_cons_self, hc⟩

theorem between (rest : List Char) :
    LexemeKind.comment.Fronts (['/', '*'] ++ through ['*', '/'] rest) ('/' :: '*' :: rest) where
  front := cons_front '/' (cons_front '*' (through_front _ rest))
  nonempty := List.cons_ne_nil _ _
  admits := .between (through_only rest) (through_ends _ rest)

theorem line (hmark : (c = '/' ∧ rest.head? = some '/') ∨ (c = '#' ∧ rest.head? ≠ some '[')) :
    LexemeKind.comment.Fronts (c :: lineComment false rest) (c :: rest) where
  front := cons_front c (lineComment_front false rest)
  nonempty := List.cons_ne_nil _ _
  admits := by
    have hsplit : lineComment false rest ++ rest.drop (lineComment false rest).length = rest :=
      List.prefix_iff_eq_append.mp (lineComment_front false rest)
    have hcomment : IsComment (rest.drop (lineComment false rest).length)
        (c :: (lineComment false rest ++ [])) := by
      refine .line ?_ (lineComment_oneLine false rest) (.inl rfl) (fun u v h => ?_)
        (lineComment_ends false rest)
      · rcases hmark with ⟨rfl, hnext⟩ | ⟨rfl, hnext⟩
        · obtain ⟨more, rfl⟩ := List.head?_eq_some_iff.mp hnext
          exact .inl ⟨rfl, rfl⟩
        · refine .inr ⟨rfl, ?_⟩
          rw [List.nil_append, hsplit]
          exact hnext
      · exact (lineComment_open false rest u v h).resolve_right fun h => Bool.false_ne_true h.2
    rwa [List.append_nil] at hcomment

/-- A choice between two kinds of lexemes. -/
theorem choice {p : Prop} [Decidable p] {u v : LexemeKind × List Char} {cs : List Char}
    (hu : p → u.1.Fronts u.2 cs) (hv : ¬p → v.1.Fronts v.2 cs) :
    (if p then u else v).1.Fronts (if p then u else v).2 cs := by
  split
  · exact hu ‹p›
  · exact hv ‹¬p›

/-- A choice between two kinds of lexemes, each with the regions behind it. -/
theorem choiceWithRegions {p : Prop} [Decidable p] {u v : LexemeKind × List Char × List Region}
    {cs : List Char} (hu : p → u.1.Fronts u.2.1 cs) (hv : ¬p → v.1.Fronts v.2.1 cs) :
    (if p then u else v).1.Fronts (if p then u else v).2.1 cs := by
  split
  · exact hu ‹p›
  · exact hv ‹¬p›

end LexemeKind.Fronts

/-- Where a test asks for the next character, it is the first one of the rest. -/
theorem cons_of_next {test : Bool} {rest : List Char} {d : Char}
    (h : (test && decide (rest.head? = some d)) = true) :
    test = true ∧ ∃ more, rest = d :: more := by
  obtain ⟨htest, hnext⟩ := Bool.and_eq_true_iff.mp h
  exact ⟨htest, List.head?_eq_some_iff.mp (of_decide_eq_true hnext)⟩

theorem codeLexeme_fronts (before : List Lexeme) (c : Char) (rest : List Char) :
    (codeLexeme before (c :: rest)).1.Fronts (codeLexeme before (c :: rest)).2 (c :: rest) := by
  unfold codeLexeme
  dsimp only
  refine .choice (fun hclose => ?_) fun _ => ?_
  · obtain ⟨hc, more, rfl⟩ := cons_of_next hclose
    obtain rfl := of_decide_eq_true hc
    exact .cons (cons_front '>' List.nil_prefix) trivial
  refine .choice (fun hbetween => ?_) fun _ => ?_
  · obtain ⟨hc, more, rfl⟩ := cons_of_next hbetween
    obtain rfl := of_decide_eq_true hc
    exact .between more
  refine .choice (fun hline => ?_) fun _ => ?_
  · simp only [Bool.or_eq_true, Bool.and_eq_true, decide_eq_true_eq, bne_iff_ne] at hline
    exact .line hline
  refine .choice (fun _ => .cons (stringTail_front _ _ rest) trivial) fun _ => ?_
  refine .choice (fun _ => .cons (stringTail_front _ _ rest) trivial) fun _ => ?_
  refine .choice (fun hplain => ?_) fun _ => ?_
  · obtain ⟨-, more, rfl⟩ := cons_of_next hplain
    exact .cons (cons_front _ (stringTail_front _ _ more)) trivial
  refine .choice (fun htemplate => ?_) fun _ => ?_
  · obtain ⟨-, more, rfl⟩ := cons_of_next htemplate
    exact .cons (cons_front _ (stringTail_front _ _ more)) trivial
  refine .choice (fun _ => .cons (simpleWord_front rest) trivial) fun _ => ?_
  refine .choice (fun hnumber => ?_) fun hnumber => ?_
  · have hstart : c.isDigit = true ∨ c = '.' := by
      simp only [Bool.or_eq_true, Bool.and_eq_true, decide_eq_true_eq] at hnumber
      exact hnumber.imp_right fun h => h.1.1
    exact ⟨number_front _, number_ne_nil hstart, trivial⟩
  have hdigit : c.isDigit = false := by
    rw [Bool.or_eq_true] at hnumber
    exact Bool.eq_false_iff.mpr fun h => hnumber (.inl h)
  refine .choice (fun hword => ?_) fun hword => ?_
  · split
    · rename_i text htext
      obtain ⟨hfront, hne⟩ := delegation?_front htext
      exact ⟨hfront, hne, isSign_delegation htext⟩
    · exact ⟨simpleWord_front _, simpleWord_ne_nil hword rest, trivial⟩
  split
  · rename_i text htext
    obtain ⟨hfront, hne⟩ := heredoc?_front htext
    exact ⟨hfront, hne, trivial⟩
  · exact ⟨sign_front _, sign_ne_nil c rest, isSign_sign (Bool.eq_false_iff.mpr hword) hdigit⟩

theorem shellLexeme_fronts (part : ShellPart) (outer : List Region) (c : Char) (rest : List Char) :
    (shellLexeme part outer (c :: rest)).1.Fronts (shellLexeme part outer (c :: rest)).2.1
      (c :: rest) := by
  have hsingle : ∀ d, isWordPart d = false → c = d →
      LexemeKind.sign.Fronts [c] (c :: rest) := by
    rintro d hd rfl
    exact .signed hd List.nil_prefix
  unfold shellLexeme
  dsimp only
  refine .choiceWithRegions (fun hc => hsingle '\x60' (by decide) hc) fun _ => ?_
  refine .choiceWithRegions (fun hbrace => ?_) fun _ => ?_
  · exact hsingle '\x7b' (by decide) (of_decide_eq_true (Bool.and_eq_true_iff.mp hbrace).1)
  refine .choiceWithRegions (fun hdollar => ?_) fun _ => ?_
  · exact hsingle '$' (by decide) (of_decide_eq_true (Bool.and_eq_true_iff.mp hdollar).1)
  refine .choiceWithRegions (fun _ => .cons (simpleWord_front rest) trivial) fun _ => ?_
  refine .choiceWithRegions (fun hmember => ?_) fun _ => ?_
  · have hword := (Bool.and_eq_true_iff.mp hmember).2
    exact ⟨simpleWord_front _, simpleWord_ne_nil hword rest, trivial⟩
  refine .choiceWithRegions (fun hindex => ?_) fun _ => ?_
  · exact hsingle '[' (by decide) (of_decide_eq_true (Bool.and_eq_true_iff.mp hindex).2)
  refine .choiceWithRegions (fun harrow => ?_) fun _ => ?_
  · simp only [Bool.and_eq_true, decide_eq_true_eq] at harrow
    obtain ⟨⟨⟨-, rfl⟩, hnext⟩, -⟩ := harrow
    obtain ⟨more, rfl⟩ := List.head?_eq_some_iff.mp hnext
    exact .signed (by decide) (cons_front '>' List.nil_prefix)
  split
  · exact .cons (List.take_prefix _ rest) trivial
  · exact .cons (shellText_front _ rest) trivial

theorem indexLexeme_fronts (outer : List Region) (c : Char) (rest : List Char) :
    (indexLexeme outer (c :: rest)).1.Fronts (indexLexeme outer (c :: rest)).2.1 (c :: rest) := by
  unfold indexLexeme
  refine .choiceWithRegions (fun hc => ?_) fun _ => ?_
  · subst hc
    exact .signed (by decide) List.nil_prefix
  refine .choiceWithRegions (fun _ => .cons (simpleWord_front rest) trivial) fun _ => ?_
  refine .choiceWithRegions (fun hdigit => ?_) fun hdigit => ?_
  · exact ⟨wholeNumber_front _, wholeNumber_ne_nil hdigit rest, trivial⟩
  refine .choiceWithRegions (fun hword => ?_) fun hword => ?_
  · exact ⟨simpleWord_front _, simpleWord_ne_nil hword rest, trivial⟩
  refine .signed ?_ List.nil_prefix
  rw [isWordPart, Bool.eq_false_iff.mpr hword, Bool.eq_false_iff.mpr hdigit, Bool.or_false]

/-- What is found in front of a text: a lexeme, or a gap if there is none. -/
def Found (c : Char) (rest : List Char) : Option (LexemeKind × List Char × List Region) → Prop
  | some (kind, text, _) => kind.Fronts text (c :: rest)
  | none => isGap c = true

/-- **The lexeme that is found in front of a text stands in front of it.** -/
theorem lexemeAt?_fronts (regions : List Region) (before : List Lexeme) (c : Char)
    (rest : List Char) : Found c rest (lexemeAt? regions before (c :: rest)) := by
  unfold lexemeAt?
  split
  · split_ifs with hgap
    · exact hgap
    · exact codeLexeme_fronts before c rest
  · exact shellLexeme_fronts _ _ c rest
  · exact indexLexeme_fronts _ c rest
  · split_ifs with htag hblank
    · exact ⟨openTag_front _, openTag_ne_nil c rest, trivial⟩
    · have hplain : isPlainBlank c = true := hblank
      show (isPlainBlank c || isHiddenBlank c) = true
      rw [hplain, Bool.true_or]
    · exact ⟨outsideText_front _, outsideText_ne_nil (Bool.eq_false_iff.mpr htag), trivial⟩

end Marginalia.Php

import Marginalia.DocComment
import Marginalia.Proofs.Expression.Sentence

/-!
# Where annotations end

An annotation in a comment runs to the parenthesis that closes its argument list. That parenthesis
is found by counting, without the grammar. This module shows that counting finds the end that the
grammar gives:

* `Balanced`: the search passes over a text and comes out as deep as it went in. Strings are
  balanced whatever they hold (`balanced_string`), and so is every spelling of a derivation
  (`balanced_of_spelled`);
* `argumentList_of_spelled`: in front of a text that starts with an argument list exactly that list
  is found, whatever follows it.
-/

namespace Marginalia.DocComment

open Expression

/-! ## 1. Texts that the search passes over -/

theorem throughClosing?_cons (depth : Nat) (inString : Bool) (c : Char) (rest : List Char) :
    throughClosing? depth inString (c :: rest) =
      if c = '"' then (throughClosing? depth (!inString) rest).map (c :: ·)
      else if inString then (throughClosing? depth true rest).map (c :: ·)
      else if c = '(' then (throughClosing? (depth + 1) false rest).map (c :: ·)
      else if c = ')' then
        match depth with
        | 0 => some [c]
        | outer + 1 => (throughClosing? outer false rest).map (c :: ·)
      else (throughClosing? depth false rest).map (c :: ·) := rfl

/-- The search for a closing parenthesis passes over the text and comes out as deep as it went
    in. -/
def Balanced (u : List Char) : Prop :=
  ∀ depth rest, throughClosing? depth false (u ++ rest) =
    (throughClosing? depth false rest).map (u ++ ·)

theorem balanced_nil : Balanced [] := by
  intro depth rest
  exact Option.map_id'.symm

theorem Balanced.append {u v : List Char} (hu : Balanced u) (hv : Balanced v) :
    Balanced (u ++ v) := by
  intro depth rest
  rw [List.append_assoc, hu, hv, Option.map_map]
  congr 1
  funext inner
  exact (List.append_assoc u v inner).symm

/-- A character that is no quote and no parenthesis. -/
theorem balanced_char {c : Char} (hquote : c ≠ '"') (hopening : c ≠ '(') (hclosing : c ≠ ')') :
    Balanced [c] := by
  intro depth rest
  show (if c = '"' then _ else if false = true then _ else if c = '(' then _
    else if c = ')' then _ else _) = _
  rw [if_neg hquote, if_neg Bool.false_ne_true, if_neg hopening, if_neg hclosing]
  rfl

theorem balanced_chars {u : List Char} (h : ∀ c ∈ ['"', '(', ')'], c ∉ u) : Balanced u := by
  induction u with
  | nil => exact balanced_nil
  | cons c u ih =>
      have hhead : ∀ d ∈ ['"', '(', ')'], c ≠ d := by
        rintro d hd rfl
        exact h c hd List.mem_cons_self
      have htail : ∀ d ∈ ['"', '(', ')'], d ∉ u := fun d hd hu =>
        h d hd (List.mem_cons_of_mem c hu)
      exact (balanced_char (hhead '"' (by decide)) (hhead '(' (by decide))
        (hhead ')' (by decide))).append (ih htail)

/-- From inside a string the search comes to its end. A doubled quote leaves the string and enters
    it again, with nothing between. -/
theorem throughClosing?_stringRest {w : List Char} (hw : w ∈ stringRest) (depth : Nat)
    (rest : List Char) :
    throughClosing? depth true (w ++ rest) =
      (throughClosing? depth false rest).map (w ++ ·) := by
  induction w, hw using stringRest_induction with
  | closing => rfl
  | char c w hc hw ih =>
      rw [List.cons_append]
      show (if c = '"' then _ else if true = true then _ else _) = _
      rw [if_neg hc, if_pos rfl, ih, Option.map_map]
      rfl
  | doubled w hw ih =>
      have hquotes : throughClosing? depth true ('"' :: '"' :: (w ++ rest)) =
          ((throughClosing? depth true (w ++ rest)).map ('"' :: ·)).map ('"' :: ·) := rfl
      rw [List.cons_append, List.cons_append, hquotes, ih, Option.map_map, Option.map_map]
      rfl

theorem balanced_string {w : List Char} (hw : w ∈ stringLexeme) : Balanced w := by
  intro depth rest
  obtain ⟨v, hv, rfl⟩ := mem_char_mul.mp hw
  have hquote : throughClosing? depth false ('"' :: (v ++ rest)) =
      (throughClosing? depth true (v ++ rest)).map ('"' :: ·) := rfl
  rw [List.cons_append, hquote, throughClosing?_stringRest hv, Option.map_map]
  rfl

theorem balanced_parentheses {u : List Char} (hu : Balanced u) :
    Balanced ('(' :: (u ++ [')'])) := by
  intro depth rest
  have hopening : throughClosing? depth false ('(' :: (u ++ ')' :: rest)) =
      (throughClosing? (depth + 1) false (u ++ ')' :: rest)).map ('(' :: ·) := rfl
  have hclosing : throughClosing? (depth + 1) false (')' :: rest) =
      (throughClosing? depth false rest).map (')' :: ·) := rfl
  rw [List.cons_append, List.append_assoc, List.singleton_append, hopening, hu, hclosing,
    Option.map_map, Option.map_map]
  congr 1
  funext inner
  simp

/-- Behind a balanced text the closing parenthesis is found. -/
theorem Balanced.throughClosing? {u : List Char} (hu : Balanced u) (rest : List Char) :
    throughClosing? 0 false (u ++ ')' :: rest) = some (u ++ [')']) := by
  rw [hu]
  rfl

/-! ## 2. Spellings are balanced -/

/-- A lexeme that is no parenthesis. -/
theorem balanced_lexeme {t : Terminal} {w : List Char} (hw : w ∈ lexemes t)
    (hopening : t ≠ .lpar) (hclosing : t ≠ .rpar) : Balanced w := by
  have hmem : ∀ c ∈ ['"', '(', ')'], c ∈ '"' :: separators :=
    List.all_iff_forall_prop.mp (by decide)
  cases t with
  | name => exact balanced_chars fun c hc => (lexemes_spare (hmem c hc)).1 w hw
  | number => exact balanced_chars fun c hc => (lexemes_spare (hmem c hc)).2 w hw
  | string => exact balanced_string hw
  | lpar => exact absurd rfl hopening
  | rpar => exact absurd rfl hclosing
  | _ =>
      cases hw
      exact balanced_char (by decide) (by decide) (by decide)

/-- The words hold no parenthesis. -/
def Unbracketed (words : List Word) : Prop :=
  ∀ w ∈ words, w.terminal ≠ .lpar ∧ w.terminal ≠ .rpar

theorem balanced_of_unbracketed {text : List Char} {words : List Word} (h : Spelled text words)
    (hwords : Unbracketed words) : Balanced text := by
  induction h with
  | nil => exact balanced_nil
  | @skip c rest _ hc h ih =>
      refine Balanced.append (u := [c]) (balanced_chars fun d hd hmem => ?_) (ih hwords)
      have hskipped : ∀ d ∈ ['"', '(', ')'], isSkipped d = false :=
        List.all_iff_forall_prop.mp (by decide)
      rw [← List.mem_singleton.mp hmem, hskipped d hd] at hc
      cases hc
  | word hw h ih =>
      obtain ⟨⟨hopening, hclosing⟩, hwords⟩ := List.forall_mem_cons.mp hwords
      exact (balanced_lexeme hw hopening hclosing).append (ih hwords)

theorem balanced_gap {gap : List Char} (h : Spelled gap []) : Balanced gap :=
  balanced_of_unbracketed h nofun

/-- The words of an argument list: what stands in its parentheses holds the items. -/
theorem balanced_arguments {text : List Char} {inside : List Word}
    (h : Spelled text
      (Enclosure.arguments.opening :: (inside ++ [Enclosure.arguments.closing])))
    (hinside : ∀ inner, Spelled inner inside → Balanced inner) : Balanced text := by
  obtain ⟨front, inner, back, rfl, hfront, hinner, hback⟩ := h.parentheses
  have hmiddle := balanced_parentheses (hinside inner hinner)
  have hall := (balanced_gap hfront).append (hmiddle.append (balanced_gap hback))
  simpa using hall

/-- The words between the brackets of a list with items. -/
theorem ending_eq (e : Enclosure) (trailing : Bool) :
    e.ending trailing = (if trailing then [Word.comma] else []) ++ [e.closing] := by
  cases trailing <;> rfl

theorem unbracketed_comma (trailing : Bool) :
    Unbracketed (if trailing then [Word.comma] else []) := by
  cases trailing with
  | false => exact nofun
  | true => exact List.forall_mem_singleton.mpr ⟨nofun, nofun⟩

theorem unbracketed_leaf (l : Leaf) (text : String) : Unbracketed [⟨l.terminal, text⟩] :=
  List.forall_mem_singleton.mpr (by cases l <;> exact ⟨nofun, nofun⟩)

/-- **The search for a closing parenthesis passes over every spelling of a derivation.** -/
theorem balanced_of_spelled {s : Nonterminal} (d : Derivation s) {text : List Char}
    (h : Spelled text d.words) : Balanced text := by
  induction d generalizing text with
  | bare name =>
      refine balanced_of_unbracketed h (List.forall_mem_cons.mpr ⟨⟨by decide, by decide⟩, ?_⟩)
      exact unbracketed_leaf .name name
  | applied name arguments ih =>
      obtain ⟨front, rest, rfl, hfront, hrest⟩ :=
        Spelled.split (a := [Word.at, ⟨.name, name⟩]) (b := arguments.words) h
      refine Balanced.append (balanced_of_unbracketed hfront ?_) (ih hrest)
      exact List.forall_mem_cons.mpr ⟨⟨by decide, by decide⟩, unbracketed_leaf .name name⟩
  | nested a ih => exact ih h
  | array entries ih => exact ih h
  | leaf l t => exact balanced_of_unbracketed h (unbracketed_leaf l t)
  | empty e =>
      cases e with
      | arguments =>
          have hempty : Spelled text
              (Enclosure.arguments.opening :: ([] ++ [Enclosure.arguments.closing])) := h
          exact balanced_arguments hempty fun inner => balanced_gap
      | array =>
          refine balanced_of_unbracketed h (List.forall_mem_cons.mpr ⟨⟨by decide, by decide⟩, ?_⟩)
          exact List.forall_mem_singleton.mpr ⟨by decide, by decide⟩
  | @filled e items trailing ih =>
      have hinside : ∀ inner, Spelled inner
          (items.words ++ if trailing then [Word.comma] else []) → Balanced inner := by
        intro inner hinner
        obtain ⟨u, v, rfl, hu, hv⟩ := hinner.split
        exact (ih hu).append (balanced_of_unbracketed hv (unbracketed_comma trailing))
      rw [Derivation.words, ending_eq, ← List.append_assoc] at h
      cases e with
      | arguments => exact balanced_arguments h hinside
      | array =>
          obtain ⟨u, v, rfl, hu, hv⟩ := Spelled.split (a := [Enclosure.array.opening]) h
          obtain ⟨v, w, rfl, hv, hw⟩ := hv.split
          have hopening := balanced_of_unbracketed hu
            (List.forall_mem_singleton.mpr ⟨by decide, by decide⟩)
          have hclosing := balanced_of_unbracketed hw
            (List.forall_mem_singleton.mpr ⟨by decide, by decide⟩)
          exact hopening.append ((hinside v hv).append hclosing)
  | single item ih => exact ih h
  | cons item more ihItem ihMore =>
      obtain ⟨u, rest, rfl, hu, hrest⟩ := Spelled.split h
      obtain ⟨v, w, rfl, hv, hw⟩ := Spelled.split (a := [Word.comma]) (b := more.words) hrest
      have hcomma := balanced_of_unbracketed hv (unbracketed_comma true)
      exact (ihItem hu).append (hcomma.append (ihMore hw))
  | unlabelled value ih => exact ih h
  | assignment name value ih =>
      obtain ⟨u, v, rfl, hu, hv⟩ :=
        Spelled.split (a := [⟨.name, name⟩, Word.equal]) (b := value.words) h
      refine Balanced.append (balanced_of_unbracketed hu ?_) (ih hv)
      refine List.forall_mem_cons.mpr ⟨unbracketed_leaf .name name _ List.mem_cons_self, ?_⟩
      exact List.forall_mem_singleton.mpr ⟨by decide, by decide⟩
  | pair key t sign value ih =>
      obtain ⟨u, v, rfl, hu, hv⟩ :=
        Spelled.split (a := [⟨key.terminal, t⟩, sign.word]) (b := value.words) h
      refine Balanced.append (balanced_of_unbracketed hu ?_) (ih hv)
      refine List.forall_mem_cons.mpr ⟨?_, List.forall_mem_singleton.mpr ?_⟩
      · exact unbracketed_leaf key t _ List.mem_cons_self
      · cases sign <;> exact ⟨by decide, by decide⟩

/-! ## 3. The argument list in front of a text -/

theorem isBlank_of_isSkipped {c : Char} (h : isSkipped c = true) : Text.isBlank c = true := by
  unfold isSkipped at h
  simp only [Bool.or_eq_true, decide_eq_true_eq, or_assoc] at h
  rcases h with rfl | rfl | rfl | rfl | rfl <;> decide

/-- What stands between the parentheses of an argument list is balanced. -/
theorem exists_inside (d : Derivation (.list .arguments)) :
    ∃ inside, d.words = Enclosure.arguments.opening :: (inside ++ [Enclosure.arguments.closing]) ∧
      ∀ inner, Spelled inner inside → Balanced inner := by
  cases d with
  | empty => exact ⟨[], rfl, fun inner => balanced_gap⟩
  | filled items trailing =>
      refine ⟨items.words ++ if trailing then [Word.comma] else [], ?_, fun inner hinner => ?_⟩
      · rw [Derivation.words, ending_eq, List.append_assoc]
      · obtain ⟨u, v, rfl, hu, hv⟩ := hinner.split
        exact (balanced_of_spelled items hu).append
          (balanced_of_unbracketed hv (unbracketed_comma trailing))

/-- An argument list starts with a separator. -/
theorem exists_separator (d : Derivation (.list .arguments)) {text : List Char}
    (h : Spelled text d.words) : ∃ c rest, text = c :: rest ∧ c ∈ separators := by
  have hfirst : SignFirst d.words := by
    rw [← List.append_nil d.words]
    exact signFirst_list d []
  have hseparated := h.separated hfirst
  cases text with
  | nil =>
      obtain ⟨inside, hwords, -⟩ := exists_inside d
      rw [hwords] at h
      obtain ⟨front, inner, back, htext, -⟩ := h.parentheses
      cases front <;> cases htext
  | cons c rest => exact ⟨c, rest, rfl, hseparated c rfl⟩

/-- An argument list that ends with its last word: a gap, and its parentheses with a balanced text
    between them. -/
theorem exists_inner (d : Derivation (.list .arguments)) {text : List Char}
    (h : Spelled text d.words) (hend : ∀ c ∈ text.getLast?, isSkipped c = false) :
    ∃ front inner, text = front ++ '(' :: (inner ++ [')']) ∧ Spelled front [] ∧
      Balanced inner := by
  obtain ⟨inside, hwords, hinside⟩ := exists_inside d
  rw [hwords] at h
  obtain ⟨front, inner, back, rfl, hfront, hinner, hback⟩ := h.parentheses
  -- The text ends with the closing parenthesis, for behind it there could only be a gap.
  obtain rfl : back = [] := by
    cases hlast : back.getLast? with
    | none => exact List.getLast?_eq_none_iff.mp hlast
    | some c =>
        have hskipped := hback.isSkipped c (List.mem_of_getLast? hlast)
        have hsplit : front ++ '(' :: (inner ++ ')' :: back) =
            front ++ '(' :: (inner ++ [')']) ++ back := by simp
        rw [hsplit, List.getLast?_append, hlast] at hend
        rw [hend c rfl] at hskipped
        cases hskipped
  exact ⟨front, inner, rfl, hfront, hinside inner hinner⟩

/-- Blanks in front of a character that is none. -/
theorem blanks_front {front : List Char} (hfront : ∀ d ∈ front, Text.isBlank d = true) {c : Char}
    (hc : ¬Text.isBlank c = true) (rest : List Char) :
    Text.trimLeft (front ++ c :: rest) = c :: rest ∧
      (front ++ c :: rest).takeWhile Text.isBlank = front := by
  constructor
  · rw [Text.trimLeft, Text.dropLeft, List.dropWhile_append_of_pos hfront,
      List.dropWhile_cons_of_neg hc]
  · rw [List.takeWhile_append_of_pos hfront, List.takeWhile_cons_of_neg hc, List.append_nil]

/-- **Of a text that starts with an argument list exactly that list is cut off**, whatever follows
    it: the parenthesis found by counting is the one at which the grammar ends the list. -/
theorem argumentList_of_spelled (d : Derivation (.list .arguments)) {text : List Char}
    (h : Spelled text d.words) (hend : ∀ c ∈ text.getLast?, isSkipped c = false) (name : String)
    (following : List Char) : argumentList name (text ++ following) = .ok text := by
  obtain ⟨front, inner, rfl, hfront, hinner⟩ := exists_inner d h hend
  have hblank : ∀ c ∈ front, Text.isBlank c = true := fun c hc =>
    isBlank_of_isSkipped (hfront.isSkipped c hc)
  have htext : front ++ '(' :: (inner ++ [')']) ++ following =
      front ++ '(' :: (inner ++ ')' :: following) := by simp
  obtain ⟨htrim, htake⟩ := blanks_front hblank (c := '(') (by decide) (inner ++ ')' :: following)
  rw [htext, argumentList, htrim]
  simp only [hinner.throughClosing? following, htake]

/-- Nothing is cut off if the first character that is not blank is no opening parenthesis. -/
theorem argumentList_of_head {text : List Char} (h : (Text.trimLeft text).head? ≠ some '(')
    (name : String) : argumentList name text = .ok [] := by
  unfold argumentList
  split
  · rename_i rest hrest
    rw [hrest] at h
    exact absurd rfl h
  · rfl

end Marginalia.DocComment

import Mathlib.Data.List.Chain
import Marginalia.Proofs.Expression.Reader

/-!
# From texts to words

Two relations between a text and words, neither of which mentions the function that cuts tokens:

* `Spelled`: the text is the words with gaps between them;
* `Tokenised`: besides, every word is the longest lexeme at its place.

The tokens of a text are its only tokenisation (`tokens_eq_iff`). In a derivation a name, a string
or a number has a sign behind it or nothing, so every spelling of a derivation is a tokenisation
(`Spelled.tokenised`): between the words of an annotation no gap is ever needed.
-/

namespace Marginalia.Expression

/-! ## 1. Spelling and tokenising -/

/-- No lexeme starts with a character that is skipped. -/
theorem isSkipped_of_lexeme {t : Terminal} {c : Char} {w : List Char} (h : c :: w ∈ lexemes t) :
    isSkipped c = false := by
  cases hc : isSkipped c with
  | false => rfl
  | true =>
      obtain ⟨hname, hnumber⟩ := lexemes_spare
        (List.mem_cons_of_mem _ (mem_separators_of_isSkipped hc))
      have hspared (hspares : Spares (lexemes t) c) : c ∉ c :: w := hspares _ h
      cases t with
      | name => exact absurd List.mem_cons_self (hspared hname)
      | number => exact absurd List.mem_cons_self (hspared hnumber)
      | string =>
          obtain ⟨v, -, hv⟩ := mem_char_mul.mp h
          cases hv
          cases hc
      | _ =>
          cases h
          cases hc

/-- The text is the words with gaps in front of, between and behind them. -/
inductive Spelled : List Char → List Word → Prop
  | nil : Spelled [] []
  | skip {c : Char} {rest : List Char} {words : List Word} (hc : isSkipped c = true)
      (h : Spelled rest words) : Spelled (c :: rest) words
  | word {t : Terminal} {w rest : List Char} {words : List Word} (hw : w ∈ lexemes t)
      (h : Spelled rest words) : Spelled (w ++ rest) (⟨t, String.ofList w⟩ :: words)

/-- The text is the words with gaps in front of, between and behind them, and no terminal has a
    longer lexeme where a word stands. -/
inductive Tokenised : List Char → List Word → Prop
  | nil : Tokenised [] []
  | skip {c : Char} {rest : List Char} {words : List Word} (hc : isSkipped c = true)
      (h : Tokenised rest words) : Tokenised (c :: rest) words
  | word {t : Terminal} {w rest : List Char} {words : List Word} (hw : w ∈ lexemes t)
      (hlong : ∀ t' v, v ∈ lexemes t' → v <+: w ++ rest → v.length ≤ w.length)
      (h : Tokenised rest words) : Tokenised (w ++ rest) (⟨t, String.ofList w⟩ :: words)

theorem Tokenised.spelled {text : List Char} {words : List Word} (h : Tokenised text words) :
    Spelled text words := by
  induction h with
  | nil => exact .nil
  | skip hc _ ih => exact .skip hc ih
  | word hw _ _ ih => exact .word hw ih

theorem Spelled.words {text : List Char} {words : List Word} (h : Spelled text words) :
    ∀ w ∈ words, w.Spelled := by
  induction h with
  | nil => exact nofun
  | skip _ _ ih => exact ih
  | @word t w _ _ hw _ ih =>
      refine List.forall_mem_cons.mpr ⟨?_, ih⟩
      show (String.ofList w).toList ∈ lexemes t
      rwa [String.toList_ofList]

theorem Spelled.append {u v : List Char} {us vs : List Word} (hu : Spelled u us)
    (hv : Spelled v vs) : Spelled (u ++ v) (us ++ vs) := by
  induction hu with
  | nil => exact hv
  | skip hc _ ih => exact .skip hc ih
  | word hw _ ih =>
      rw [List.append_assoc]
      exact .word hw ih

/-- A spelling of words and more words is a spelling of the one and then of the other. -/
theorem Spelled.split {text : List Char} {a b : List Word} (h : Spelled text (a ++ b)) :
    ∃ u v, text = u ++ v ∧ Spelled u a ∧ Spelled v b := by
  generalize hall : a ++ b = all at h
  induction h generalizing a with
  | nil =>
      obtain ⟨rfl, rfl⟩ := List.append_eq_nil_iff.mp hall
      exact ⟨[], [], rfl, .nil, .nil⟩
  | @skip c rest words hc h ih =>
      obtain ⟨u, v, rfl, hu, hv⟩ := ih hall
      exact ⟨c :: u, v, rfl, .skip hc hu, hv⟩
  | @word t w rest words hw h ih =>
      cases a with
      | nil =>
          cases hall
          exact ⟨[], w ++ rest, rfl, .nil, .word hw h⟩
      | cons x a =>
          injection hall with hx hall
          subst hx
          obtain ⟨u, v, rfl, hu, hv⟩ := ih hall
          exact ⟨w ++ u, v, (List.append_assoc _ _ _).symm, .word hw hu, hv⟩

/-- A spelling starts with a gap and its first word. -/
theorem Spelled.cons_inv {text : List Char} {x : Word} {words : List Word}
    (h : Spelled text (x :: words)) :
    ∃ gap rest, text = gap ++ (x.text.toList ++ rest) ∧ Spelled gap [] ∧ Spelled rest words := by
  generalize hall : x :: words = all at h
  induction h with
  | nil => cases hall
  | @skip c rest _ hc h ih =>
      obtain ⟨gap, rest', rfl, hgap, hrest⟩ := ih hall
      exact ⟨c :: gap, rest', rfl, .skip hc hgap, hrest⟩
  | @word t w rest _ hw h ih =>
      cases hall
      refine ⟨[], rest, ?_, .nil, h⟩
      rw [String.toList_ofList]
      rfl

/-- A gap is made of what is skipped. -/
theorem Spelled.isSkipped {gap : List Char} (h : Spelled gap []) :
    ∀ c ∈ gap, Expression.isSkipped c = true := by
  generalize hall : ([] : List Word) = all at h
  induction h with
  | nil => exact nofun
  | skip hc h ih => exact List.forall_mem_cons.mpr ⟨hc, ih hall⟩
  | word hw h ih => cases hall

/-- No words are spelled by nothing. -/
theorem Spelled.eq_nil {words : List Word} (h : Spelled [] words) : words = [] := by
  generalize htext : ([] : List Char) = text at h
  cases h with
  | nil => rfl
  | skip hc h => cases htext
  | word hw h => exact absurd (List.append_eq_nil_iff.mp htext.symm).1 (lexemes_ne_nil hw)

/-- Behind the first word, which stands in front, the other words are spelled. -/
theorem Spelled.tail {x : Word} {words : List Word} {rest : List Char}
    (h : Spelled (x.text.toList ++ rest) (x :: words)) : Spelled rest words := by
  have hx : x.text.toList ∈ lexemes x.terminal := h.words x List.mem_cons_self
  obtain ⟨gap, rest', heq, hgap, hrest⟩ := h.cons_inv
  cases gap with
  | nil =>
      obtain rfl := List.append_cancel_left heq
      exact hrest
  | cons c gap =>
      generalize x.text.toList = w at hx heq
      cases w with
      | nil => exact absurd rfl (lexemes_ne_nil hx)
      | cons d w =>
          injection heq with hd
          have hskipped := hgap.isSkipped c List.mem_cons_self
          rw [← hd, isSkipped_of_lexeme hx] at hskipped
          cases hskipped

/-- A spelling of words in parentheses. -/
theorem Spelled.parentheses {text : List Char} {inside : List Word}
    (h : Spelled text
      (Enclosure.arguments.opening :: (inside ++ [Enclosure.arguments.closing]))) :
    ∃ front inner back, text = front ++ '(' :: (inner ++ ')' :: back) ∧ Spelled front [] ∧
      Spelled inner inside ∧ Spelled back [] := by
  obtain ⟨front, rest, rfl, hfront, hrest⟩ := h.cons_inv
  obtain ⟨inner, last, rfl, hinner, hlast⟩ := hrest.split
  obtain ⟨gap, back, rfl, hgap, hback⟩ := hlast.cons_inv
  refine ⟨front, inner ++ gap, back, ?_, hfront, ?_, hback⟩
  · rw [List.append_assoc]
    rfl
  · have happend := hinner.append hgap
    rwa [List.append_nil] at happend

/-! ## 2. The tokens of a text -/

/-- What is cut off in front of a text is determined by being the longest. -/
theorem lexeme?_eq_some {t : Terminal} {w text : List Char} (hw : w ∈ lexemes t)
    (hfront : w <+: text)
    (hlong : ∀ t' v, v ∈ lexemes t' → v <+: text → v.length ≤ w.length) :
    lexeme? text = some (t, w) := by
  have hcuts := lexeme?_cuts text
  cases hlexeme : lexeme? text with
  | none =>
      rw [hlexeme] at hcuts
      exact absurd hfront (hcuts t w hw)
  | some cut =>
      obtain ⟨t', v⟩ := cut
      rw [hlexeme] at hcuts
      obtain ⟨hv, hvfront, hvlong⟩ := hcuts
      obtain ⟨rfl, hle⟩ := hvlong t w hw hfront
      have hlength : v.length = w.length := Nat.le_antisymm (hlong t v hv hvfront) hle
      rw [(List.prefix_of_prefix_length_le hvfront hfront hlength.le).eq_of_length hlength]

/-- Characters of a token that has been cut already are passed over. -/
theorem tokensFrom_inside (inside rest : List Char) (place : Position) :
    ∃ place', tokensFrom inside.length place (inside ++ rest) = tokensFrom 0 place' rest := by
  induction inside generalizing place with
  | nil => exact ⟨place, rfl⟩
  | cons c inside ih => exact ih (place.after c)

/-- A tokenisation is what the tokens are. -/
theorem Tokenised.tokensFrom {text : List Char} {words : List Word} (h : Tokenised text words)
    (place : Position) :
    (tokensFrom 0 place text).1.map Token.word = words ∧
      (tokensFrom 0 place text).2 = .complete := by
  induction h generalizing place with
  | nil => exact ⟨rfl, rfl⟩
  | @skip c rest words hc h ih =>
      rw [Expression.tokensFrom, if_pos hc]
      exact ih _
  | @word t w rest words hw hlong h ih =>
      have hlexeme := lexeme?_eq_some hw (List.prefix_append w rest) hlong
      cases w with
      | nil => exact absurd rfl (lexemes_ne_nil hw)
      | cons c w =>
          obtain ⟨place', hinside⟩ := tokensFrom_inside w rest (place.after c)
          have hskipped : ¬isSkipped c = true := by rw [isSkipped_of_lexeme hw]; exact nofun
          rw [List.cons_append] at hlexeme
          rw [List.cons_append, Expression.tokensFrom, if_neg hskipped, hlexeme]
          dsimp only
          rw [List.length_cons, Nat.add_sub_cancel, hinside]
          obtain ⟨hwords, hending⟩ := ih place'
          refine ⟨?_, hending⟩
          rw [List.map_cons, hwords]
          rfl

/-- Tokens that reach the end of a text are a tokenisation. The induction is on the text, the first
    characters of which may belong to a token that has been cut already. -/
theorem tokenised_of_tokensFrom (inside : Nat) (place : Position) (text : List Char)
    (h : (tokensFrom inside place text).2 = .complete) :
    Tokenised (text.drop inside) ((tokensFrom inside place text).1.map Token.word) := by
  induction text generalizing inside place with
  | nil =>
      rw [List.drop_nil]
      exact .nil
  | cons c rest ih =>
      cases inside with
      | succ more => exact ih more _ h
      | zero =>
          rw [List.drop_zero]
          rw [tokensFrom] at h ⊢
          split
          · rename_i hc
            rw [if_pos hc] at h
            exact .skip hc (ih 0 _ h)
          · rename_i hc
            rw [if_neg hc] at h
            have hcuts := lexeme?_cuts (c :: rest)
            cases hlexeme : lexeme? (c :: rest) with
            | none =>
                rw [hlexeme] at h
                cases h
            | some cut =>
                obtain ⟨t, w⟩ := cut
                rw [hlexeme] at h hcuts
                dsimp only at h ⊢
                obtain ⟨hw, ⟨after, hafter⟩, hlong⟩ := hcuts
                cases w with
                | nil => exact absurd rfl (lexemes_ne_nil hw)
                | cons d w =>
                    obtain ⟨rfl, rfl⟩ : d = c ∧ w ++ after = rest := List.cons.inj hafter
                    have hrest := ih _ _ h
                    rw [List.length_cons, Nat.add_sub_cancel, List.drop_left] at hrest
                    exact .word hw (fun t' v hv hfront => (hlong t' v hv hfront).2) hrest

/-- **The tokens of a text reach its end exactly if it can be tokenised, and are then its only
    tokenisation.** -/
theorem tokens_eq_iff (text : List Char) (words : List Word) :
    ((tokens text).1.map Token.word = words ∧ (tokens text).2 = .complete) ↔
      Tokenised text words := by
  constructor
  · rintro ⟨rfl, h⟩
    exact tokenised_of_tokensFrom 0 .start text h
  · intro h
    exact h.tokensFrom .start

theorem Tokenised.unique {text : List Char} {us vs : List Word} (hu : Tokenised text us)
    (hv : Tokenised text vs) : us = vs := by
  rw [← (hu.tokensFrom .start).1, (hv.tokensFrom .start).1]

/-! ## 3. Spellings of derivations -/

/-- Whether a word is a sign. -/
def Word.isSign (w : Word) : Bool := isSignTerminal w.terminal

/-- A sign stands in front, or nothing. -/
def SignFirst (words : List Word) : Prop := ∀ w ∈ words.head?, w.isSign = true

/-- Of any two neighbours one is a sign. -/
def Apart (words : List Word) : Prop :=
  words.IsChain fun v w => v.isSign = true ∨ w.isSign = true

theorem apart_sign {w : Word} (hw : w.isSign = true) {r : List Word} (h : Apart r) :
    Apart (w :: r) :=
  List.isChain_cons.mpr ⟨fun _ _ => .inl hw, h⟩

theorem apart_leaf (w : Word) {r : List Word} (hr : SignFirst r) (h : Apart r) : Apart (w :: r) :=
  List.isChain_cons.mpr ⟨fun v hv => .inr (hr v hv), h⟩

theorem signFirst_sign {w : Word} (hw : w.isSign = true) (r : List Word) : SignFirst (w :: r) := by
  rintro v ⟨⟩
  exact hw

theorem isSign_opening (e : Enclosure) : e.opening.isSign = true := by cases e <;> rfl

theorem isSign_closing (e : Enclosure) : e.closing.isSign = true := by cases e <;> rfl

theorem isSign_keySign (sign : KeySign) : sign.word.isSign = true := by cases sign <;> rfl

theorem signFirst_list {e : Enclosure} (d : Derivation (.list e)) (r : List Word) :
    SignFirst (d.words ++ r) := by
  cases d with
  | empty => exact signFirst_sign (isSign_opening e) _
  | filled items trailing => exact signFirst_sign (isSign_opening e) _

theorem apart_ending (e : Enclosure) (trailing : Bool) {r : List Word} (h : Apart r) :
    SignFirst (e.ending trailing ++ r) ∧ Apart (e.ending trailing ++ r) := by
  have hclosing := apart_sign (isSign_closing e) h
  cases trailing with
  | false => exact ⟨signFirst_sign (isSign_closing e) _, hclosing⟩
  | true => exact ⟨signFirst_sign rfl _, apart_sign rfl hclosing⟩

/-- In a derivation a name, a string or a number has a sign behind it. -/
theorem Derivation.apart_append {s : Nonterminal} (d : Derivation s) {r : List Word}
    (hr : SignFirst r) (h : Apart r) : Apart (d.words ++ r) := by
  induction d generalizing r with
  | bare name => exact apart_sign rfl (apart_leaf _ hr h)
  | applied name arguments ih =>
      exact apart_sign rfl (apart_leaf _ (signFirst_list arguments r) (ih hr h))
  | nested a ih => exact ih hr h
  | array entries ih => exact ih hr h
  | leaf l text => exact apart_leaf _ hr h
  | empty e => exact apart_sign (isSign_opening e) (apart_sign (isSign_closing e) h)
  | @filled e items trailing ih =>
      obtain ⟨hfirst, hend⟩ := apart_ending e trailing h
      rw [words, List.cons_append, List.append_assoc]
      exact apart_sign (isSign_opening e) (ih hfirst hend)
  | single item ih => exact ih hr h
  | cons item more ihItem ihMore =>
      rw [words, List.append_assoc]
      exact ihItem (signFirst_sign rfl _) (apart_sign rfl (ihMore hr h))
  | unlabelled value ih => exact ih hr h
  | assignment name value ih =>
      exact apart_leaf _ (signFirst_sign rfl _) (apart_sign rfl (ih hr h))
  | pair key text sign value ih =>
      exact apart_leaf _ (signFirst_sign (isSign_keySign sign) _)
        (apart_sign (isSign_keySign sign) (ih hr h))

/-- A gap or a sign separates what stands before it. -/
theorem Spelled.separated {text : List Char} {words : List Word} (h : Spelled text words)
    (hfirst : SignFirst words) : Separated text := by
  cases h with
  | nil => exact nofun
  | skip hc h =>
      rintro d ⟨⟩
      exact mem_separators_of_isSkipped hc
  | word hw h =>
      obtain ⟨c, hc, heq⟩ := lexemes_of_isSign (hfirst _ rfl)
      rw [heq] at hw
      rw [mem_singleton.mp hw]
      rintro d ⟨⟩
      exact List.mem_append_left _ hc

theorem Spelled.tokenised_of_apart {text : List Char} {words : List Word}
    (h : Spelled text words) (hapart : Apart words) : Tokenised text words := by
  induction h with
  | nil => exact .nil
  | skip hc _ ih => exact .skip hc (ih hapart)
  | @word t w rest words hw h ih =>
      obtain ⟨hfirst, hapart⟩ := List.isChain_cons.mp hapart
      have hrest : isSignTerminal t = true ∨ Separated rest := by
        by_cases hsign : isSignTerminal t = true
        · exact .inl hsign
        · exact .inr (h.separated fun v hv => (hfirst v hv).resolve_left hsign)
      exact .word hw (fun t' v hv hfront => lexemes_length_le hw hrest hv hfront) (ih hapart)

/-- **Every spelling of a derivation is a tokenisation.** -/
theorem Spelled.tokenised {text : List Char} {d : Derivation .expression}
    (h : Spelled text d.words) : Tokenised text d.words := by
  have hapart := d.apart_append (r := []) nofun .nil
  rw [List.append_nil] at hapart
  exact h.tokenised_of_apart hapart

end Marginalia.Expression

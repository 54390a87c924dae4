import Marginalia.Proofs.Expression.Lexeme
import Marginalia.Proofs.Expression.Numeral

/-!
# The lexemes of all terminals

* `lexemes`: the lexemes of a terminal, as a language;
* `lexemes_head`: no lexeme of one terminal starts like a lexeme of another;
* `lexeme?_cuts`: the lexeme that is cut off in front of a text is the longest one there, and only
  one terminal has a lexeme there;
* `lexemes_length_le`: a lexeme is the longest one in front of a text if it is a sign, or nothing or
  a separator follows.
-/

namespace Marginalia.Expression

/-! ## 1. The languages -/

/-- The lexemes of a terminal. -/
def lexemes : Terminal → Language Char
  | .at => {['@']}
  | .lpar => {['(']}
  | .rpar => {[')']}
  | .comma => {[',']}
  | .equal => {['=']}
  | .lbrace => {['\x7b']}
  | .rbrace => {['\x7d']}
  | .colon => {[':']}
  | .name => nameLexeme
  | .string => stringLexeme
  | .number => numberLexeme

/-! ## 2. The first character -/

/-- The terminal whose lexemes can start with a character. -/
def headTerminal (c : Char) : Terminal :=
  match sign? c with
  | some t => t
  | none =>
    if c = '"' then .string
    else if c = '-' || c = '.' || Text.isDigit c then .number
    else .name

/-- The characters that are signs. -/
def signs : List Char := ['@', '(', ')', ',', '=', '\x7b', '\x7d', ':']

theorem mem_signs {c : Char} {t : Terminal} (h : sign? c = some t) : c ∈ signs := by
  unfold sign? at h
  split at h <;> cases h <;> decide

/-- No sign is part of an identifier or a digit. -/
theorem sign?_eq_none {c : Char} (h : Text.isIdentStart c = true ∨ Text.isDigit c = true) :
    sign? c = none := by
  cases hs : sign? c with
  | none => rfl
  | some t =>
      have hnone : ∀ c ∈ signs, ¬(Text.isIdentStart c = true ∨ Text.isDigit c = true) :=
        List.all_iff_forall_prop.mp (by decide)
      exact absurd h (hnone c (mem_signs hs))

theorem isDigit_of_isIdentStart {c : Char} (h : Text.isIdentStart c = true) :
    Text.isDigit c = false := by
  cases hd : Text.isDigit c with
  | false => rfl
  | true =>
      have hrange := isDigit_range hd
      unfold Text.isIdentStart Text.isAsciiLetter at h
      simp only [Bool.or_eq_true, Bool.and_eq_true, decide_eq_true_eq] at h
      rcases h with h | rfl
      · omega
      · revert hrange
        decide

theorem headTerminal_of_isIdentStart {c : Char} (h : Text.isIdentStart c = true) :
    headTerminal c = .name := by
  have hquote : c ≠ '"' := by
    rintro rfl
    revert h
    decide
  have hnumber : ¬(decide (c = '-') || decide (c = '.') || Text.isDigit c) = true := by
    rw [isDigit_of_isIdentStart h, Bool.or_false, Bool.or_eq_true, decide_eq_true_eq,
      decide_eq_true_eq]
    rintro (rfl | rfl) <;> exact absurd h (by decide)
  unfold headTerminal
  rw [sign?_eq_none (.inl h)]
  dsimp only
  rw [if_neg hquote, if_neg hnumber]

theorem headTerminal_of_isDigit {c : Char} (h : Text.isDigit c = true) :
    headTerminal c = .number := by
  have hquote : c ≠ '"' := by
    rintro rfl
    revert h
    decide
  unfold headTerminal
  rw [sign?_eq_none (.inr h)]
  dsimp only
  rw [if_neg hquote, h, Bool.or_true, if_pos rfl]

/-- **The first character of a lexeme tells its terminal.** -/
theorem lexemes_head {t : Terminal} {w : List Char} (h : w ∈ lexemes t) :
    ∃ c v, w = c :: v ∧ headTerminal c = t := by
  cases t with
  | name =>
      rcases mem_optional_mul.mp h with h | h
      · obtain ⟨c, v, rfl | hc, rfl⟩ := dollarName_head h
        · exact ⟨'$', v, rfl, by decide⟩
        · exact ⟨c, v, rfl, headTerminal_of_isIdentStart hc⟩
      · obtain ⟨v, -, rfl⟩ := mem_char_mul.mp h
        exact ⟨'\\', v, rfl, by decide⟩
  | string =>
      obtain ⟨v, -, rfl⟩ := mem_char_mul.mp h
      exact ⟨'"', v, rfl, by decide⟩
  | number =>
      rcases mem_optional_mul.mp h with h | h
      · obtain ⟨c, v, rfl | hc, rfl⟩ := unsigned_head h
        · exact ⟨'.', v, rfl, by decide⟩
        · exact ⟨c, v, rfl, headTerminal_of_isDigit hc⟩
      · obtain ⟨v, -, rfl⟩ := mem_char_mul.mp h
        exact ⟨'-', v, rfl, by decide⟩
  | _ =>
      cases h
      exact ⟨_, _, rfl, rfl⟩

theorem lexemes_ne_nil {t : Terminal} {w : List Char} (h : w ∈ lexemes t) : w ≠ [] := by
  obtain ⟨c, v, rfl, -⟩ := lexemes_head h
  exact List.cons_ne_nil c v

/-! ## 3. The longest lexeme -/

/-- What is cut off in front of a text: a lexeme such that no lexeme there is of another terminal
    or longer, or nothing if there is none. -/
def Cuts (text : List Char) : Option (Terminal × List Char) → Prop
  | some (t, w) => w ∈ lexemes t ∧ w <+: text ∧
      ∀ t' v, v ∈ lexemes t' → v <+: text → t' = t ∧ v.length ≤ w.length
  | none => ∀ t v, v ∈ lexemes t → ¬v <+: text

/-- Only the terminal of the first character matters. -/
theorem Finds.cuts {c : Char} {rest : List Char} {t : Terminal} {r : Option (List Char)}
    (h : Finds (lexemes t) (c :: rest) r) (hc : headTerminal c = t) :
    Cuts (c :: rest) (r.map (t, ·)) := by
  have hother : ∀ t' v, v ∈ lexemes t' → v <+: c :: rest → t' = t := by
    intro t' v hv hfront
    obtain ⟨d, u, rfl, hd⟩ := lexemes_head hv
    rw [(List.cons_prefix_cons.mp hfront).1, hc] at hd
    exact hd.symm
  cases r with
  | none =>
      intro t' v hv hfront
      obtain rfl := hother t' v hv hfront
      exact h v hv hfront
  | some w =>
      refine ⟨h.1, h.2.1, fun t' v hv hfront => ?_⟩
      obtain rfl := hother t' v hv hfront
      exact ⟨rfl, h.2.2 v hv hfront⟩

theorem finds_char (c : Char) (rest : List Char) : Finds {[c]} (c :: rest) (some [c]) := by
  refine ⟨rfl, List.cons_prefix_cons.mpr ⟨rfl, List.nil_prefix⟩, fun v hv _ => ?_⟩
  rw [mem_singleton.mp hv]

/-- A sign is the whole lexeme of its terminal. -/
theorem lexemes_of_sign? {c : Char} {t : Terminal} (h : sign? c = some t) : lexemes t = {[c]} := by
  unfold sign? at h
  split at h <;> cases h <;> rfl

/-- **The lexeme that is cut off in front of a text is the longest one there, and no other terminal
    has a lexeme there.** -/
theorem lexeme?_cuts (text : List Char) : Cuts text (lexeme? text) := by
  unfold lexeme?
  split
  · intro t v hv hfront
    exact lexemes_ne_nil hv (List.prefix_nil.mp hfront)
  · rename_i c rest
    split
    · rename_i t ht
      have hfinds : Finds (lexemes t) (c :: rest) (some [c]) := by
        rw [lexemes_of_sign? ht]
        exact finds_char c rest
      refine hfinds.cuts ?_
      unfold headTerminal
      rw [ht]
    · rename_i hsign
      have hhead : headTerminal c = if c = '"' then .string
          else if c = '-' || c = '.' || Text.isDigit c then .number else .name := by
        unfold headTerminal
        rw [hsign]
      split
      · rename_i hc
        subst hc
        have hcuts := ((stringTail?_finds rest).behind '"').cuts (t := .string) hhead
        rwa [Option.map_map] at hcuts
      · rename_i hc
        rw [if_neg hc] at hhead
        split
        · rename_i hnumber
          rw [if_pos hnumber] at hhead
          exact (number?_finds (c :: rest)).cuts (t := .number) hhead
        · rename_i hnumber
          rw [if_neg hnumber] at hhead
          exact (name?_finds (c :: rest)).cuts (t := .name) hhead

/-! ## 4. Where lexemes end -/

/-- The characters that end every lexeme in front of them: signs, and what is skipped between
    tokens. -/
def separators : List Char := signs ++ [' ', '\t', '\x0c', '\r', '\n']

theorem mem_separators_of_isSkipped {c : Char} (h : isSkipped c = true) : c ∈ separators := by
  unfold isSkipped at h
  simp only [Bool.or_eq_true, decide_eq_true_eq, or_assoc] at h
  rcases h with rfl | rfl | rfl | rfl | rfl <;> decide

/-- Names and numbers hold no separator and no quote. -/
theorem lexemes_spare {c : Char} (hc : c ∈ '"' :: separators) :
    Spares nameLexeme c ∧ Spares numberLexeme c := by
  have hclasses : ∀ c ∈ '"' :: separators,
      (Text.isIdentPart c = false ∧ c ≠ '\\' ∧ c ≠ '$') ∧ Text.isDigit c = false ∧
        (c ≠ '.' ∧ c ≠ '-' ∧ isExponentSign c = false) ∧ Number.isExponentMark c = false :=
    List.all_iff_forall_prop.mp (by decide)
  obtain ⟨⟨hpart, hseparator, hdollar⟩, hdigit, hother, hmark⟩ := hclasses c hc
  exact ⟨nameLexeme_spares hpart hseparator hdollar, numberLexeme_spares hdigit hother hmark⟩

/-- Of two rests of strings in front of one text, the first of which no quote follows, the second is
    not the longer one. -/
theorem stringRest_length_le {w v rest : List Char} {c : Char} (hw : w ∈ stringRest)
    (hv : v ∈ stringRest) (hc : c ≠ '"') (hfront : v <+: w ++ c :: rest) :
    v.length ≤ w.length := by
  induction w, hw using stringRest_induction generalizing v with
  | closing =>
      rcases mem_stringRest.mp hv with rfl | ⟨d, u, hd, -, rfl⟩ | ⟨u, -, rfl⟩
      · exact Nat.le_refl _
      · exact absurd (List.cons_prefix_cons.mp hfront).1 hd
      · have hquote := (List.cons_prefix_cons.mp (List.cons_prefix_cons.mp hfront).2).1
        exact absurd hquote.symm hc
  | char d w hd hw ih =>
      rcases mem_stringRest.mp hv with rfl | ⟨e, u, -, hu, rfl⟩ | ⟨u, -, rfl⟩
      · exact absurd (List.cons_prefix_cons.mp hfront).1.symm hd
      · exact Nat.succ_le_succ (ih hu (List.cons_prefix_cons.mp hfront).2)
      · exact absurd (List.cons_prefix_cons.mp hfront).1.symm hd
  | doubled w hw ih =>
      rcases mem_stringRest.mp hv with rfl | ⟨e, u, he, -, rfl⟩ | ⟨u, hu, rfl⟩
      · exact Nat.succ_le_succ (Nat.zero_le _)
      · exact absurd (List.cons_prefix_cons.mp hfront).1 he
      · have hrest := (List.cons_prefix_cons.mp (List.cons_prefix_cons.mp hfront).2).2
        exact Nat.succ_le_succ (Nat.succ_le_succ (ih hu hrest))

/-- Whether a terminal is a single sign. -/
def isSignTerminal : Terminal → Bool
  | .name | .string | .number => false
  | _ => true

/-- The lexemes of a sign are one character, and a separator. -/
theorem lexemes_of_isSign {t : Terminal} (h : isSignTerminal t = true) :
    ∃ c ∈ signs, lexemes t = {[c]} := by
  cases t with
  | name | string | number => cases h
  | _ => exact ⟨_, by decide, rfl⟩

/-- The text behind a lexeme that is no sign: nothing, or a separator in front. -/
def Separated (rest : List Char) : Prop := ∀ c ∈ rest.head?, c ∈ separators

/-- **A lexeme is the longest one if it is a sign or a separator follows.** -/
theorem lexemes_length_le {t t' : Terminal} {w v rest : List Char} (hw : w ∈ lexemes t)
    (hrest : isSignTerminal t = true ∨ Separated rest) (hv : v ∈ lexemes t')
    (hfront : v <+: w ++ rest) : v.length ≤ w.length := by
  obtain rfl : t' = t := by
    obtain ⟨c, u, rfl, hc⟩ := lexemes_head hw
    obtain ⟨d, u', rfl, hd⟩ := lexemes_head hv
    rw [← hc, ← hd, (List.cons_prefix_cons.mp hfront).1]
  cases hsign : isSignTerminal t' with
  | true =>
      obtain ⟨c, -, hc⟩ := lexemes_of_isSign hsign
      rw [hc] at hv hw
      rw [mem_singleton.mp hv, mem_singleton.mp hw]
  | false =>
      rw [hsign] at hrest
      have hrest : Separated rest := hrest.resolve_left Bool.false_ne_true
      cases rest with
      | nil =>
          rw [List.append_nil] at hfront
          exact hfront.length_le
      | cons c rest =>
          have hc : c ∈ separators := hrest c rfl
          have hspared (hspares : Spares (lexemes t') c) : v.length ≤ w.length :=
            ((prefix_append_cons_iff (hspares v hv) rest).mp hfront).length_le
          cases t' with
          | name => exact hspared (lexemes_spare (List.mem_cons_of_mem _ hc)).1
          | number => exact hspared (lexemes_spare (List.mem_cons_of_mem _ hc)).2
          | string =>
              have hquote : c ≠ '"' := by
                rintro rfl
                exact absurd hc (by decide)
              obtain ⟨w, hw', rfl⟩ := mem_char_mul.mp hw
              obtain ⟨v, hv', rfl⟩ := mem_char_mul.mp hv
              exact Nat.succ_le_succ
                (stringRest_length_le hw' hv' hquote (List.cons_prefix_cons.mp hfront).2)
          | _ => cases hsign

end Marginalia.Expression

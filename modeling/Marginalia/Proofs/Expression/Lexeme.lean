import Marginalia.Expression.Token
import Marginalia.Proofs.Expression.Language

/-!
# Names and strings

What names and strings are made of, as languages, and that the readers of both find the longest one
in front of a text (`name?_finds`, `stringTail?_finds`).
-/

namespace Marginalia.Expression

open Computability

/-! ## 1. The languages -/

/-- Identifiers. -/
def identifier : Language Char := oneOf Text.isIdentStart * manyOf Text.isIdentPart

/-- Identifiers with separators between them. -/
def identifierRow : Language Char := identifier * ({['\\']} * identifier)∗

/-- Names: a separator and a dollar sign may stand in front. -/
def nameLexeme : Language Char := optional {['\\']} * (optional {['$']} * identifierRow)

/-- The rest of a string after its opening quote. -/
def stringRest : Language Char := (oneOf (· ≠ '"') + {['"', '"']})∗ * {['"']}

/-- Strings: every quote inside is doubled. -/
def stringLexeme : Language Char := {['"']} * stringRest

/-! ## 2. Names -/

/-- What may follow the first character of a row of identifiers. -/
def rowRest : Language Char := manyOf Text.isIdentPart * ({['\\']} * identifier)∗

theorem identifierRow_eq : identifierRow = oneOf Text.isIdentStart * rowRest := by
  unfold identifierRow rowRest identifier
  rw [mul_assoc]

/-- The rest of a row is empty, or goes on with a character, or with a separator that an
    identifier follows. -/
theorem mem_rowRest {w : List Char} :
    w ∈ rowRest ↔ w = [] ∨ (∃ c v, Text.isIdentPart c = true ∧ v ∈ rowRest ∧ w = c :: v) ∨
      ∃ c v, Text.isIdentStart c = true ∧ v ∈ rowRest ∧ w = '\\' :: c :: v := by
  constructor
  · intro h
    obtain ⟨a, ha, b, hb, rfl⟩ := Language.mem_mul.mp h
    cases a with
    | cons c a =>
        obtain ⟨hc, ha⟩ := List.forall_mem_cons.mp (mem_manyOf.mp ha)
        have hrest : a ++ b ∈ rowRest := Language.mem_mul.mpr ⟨a, mem_manyOf.mpr ha, b, hb, rfl⟩
        exact .inr (.inl ⟨c, a ++ b, hc, hrest, rfl⟩)
    | nil =>
        rcases mem_star_iff.mp hb with rfl | ⟨q, hq, more, hmore, rfl⟩
        · exact .inl rfl
        · obtain ⟨u, hu, rfl⟩ := mem_char_mul.mp hq
          obtain ⟨c, v, hc, hv, rfl⟩ := mem_oneOf_mul.mp hu
          have hrest : v ++ more ∈ rowRest := Language.mem_mul.mpr ⟨v, hv, more, hmore, rfl⟩
          exact .inr (.inr ⟨c, v ++ more, hc, hrest, rfl⟩)
  · rintro (rfl | ⟨c, v, hc, hv, rfl⟩ | ⟨c, v, hc, hv, rfl⟩)
    · exact Language.mem_mul.mpr ⟨[], mem_manyOf.mpr nofun, [], mem_star_iff.mpr (.inl rfl), rfl⟩
    · obtain ⟨a, ha, b, hb, rfl⟩ := Language.mem_mul.mp hv
      refine Language.mem_mul.mpr ⟨c :: a, ?_, b, hb, rfl⟩
      exact mem_manyOf.mpr (List.forall_mem_cons.mpr ⟨hc, mem_manyOf.mp ha⟩)
    · obtain ⟨a, ha, b, hb, rfl⟩ := Language.mem_mul.mp hv
      have hround : '\\' :: c :: a ∈ ({['\\']} : Language Char) * identifier :=
        mem_char_mul.mpr ⟨c :: a, mem_oneOf_mul.mpr ⟨c, a, hc, ha, rfl⟩, rfl⟩
      refine Language.mem_mul.mpr ⟨[], mem_manyOf.mpr nofun, '\\' :: c :: (a ++ b), ?_, rfl⟩
      exact mem_star_iff.mpr (.inr ⟨_, hround, b, hb, rfl⟩)

/-- No character of an identifier is a separator. -/
theorem isIdentPart_separator : Text.isIdentPart '\\' = false := by decide

theorem nameTail_mem (cs : List Char) : nameTail cs ∈ rowRest ∧ nameTail cs <+: cs := by
  fun_induction nameTail cs with
  | case1 => exact ⟨mem_rowRest.mpr (.inl rfl), List.nil_prefix⟩
  | case2 c rest hc ih =>
      refine ⟨mem_rowRest.mpr (.inr (.inr ⟨c, _, hc, ih.1, rfl⟩)), ?_⟩
      exact List.cons_prefix_cons.mpr ⟨rfl, List.cons_prefix_cons.mpr ⟨rfl, ih.2⟩⟩
  | case3 c rest hc => exact ⟨mem_rowRest.mpr (.inl rfl), List.nil_prefix⟩
  | case4 c rest hne hc ih =>
      refine ⟨mem_rowRest.mpr (.inr (.inl ⟨c, _, hc, ih.1, rfl⟩)), ?_⟩
      exact List.cons_prefix_cons.mpr ⟨rfl, ih.2⟩
  | case5 c rest hne hc => exact ⟨mem_rowRest.mpr (.inl rfl), List.nil_prefix⟩

theorem nameTail_longest (cs : List Char) :
    ∀ v ∈ rowRest, v <+: cs → v.length ≤ (nameTail cs).length := by
  fun_induction nameTail cs with
  | case1 =>
      intro v _ hfront
      rw [List.prefix_nil.mp hfront]
  | case2 c rest hc ih =>
      intro v hv hfront
      rcases mem_rowRest.mp hv with rfl | ⟨d, u, hd, -, rfl⟩ | ⟨d, u, -, hu, rfl⟩
      · exact Nat.zero_le _
      · obtain ⟨rfl, -⟩ := List.cons_prefix_cons.mp hfront
        rw [isIdentPart_separator] at hd
        cases hd
      · have hrest := (List.cons_prefix_cons.mp (List.cons_prefix_cons.mp hfront).2).2
        exact Nat.succ_le_succ (Nat.succ_le_succ (ih u hu hrest))
  | case3 c rest hc =>
      intro v hv hfront
      rcases mem_rowRest.mp hv with rfl | ⟨d, u, hd, -, rfl⟩ | ⟨d, u, hd, -, rfl⟩
      · exact Nat.zero_le _
      · obtain ⟨rfl, -⟩ := List.cons_prefix_cons.mp hfront
        rw [isIdentPart_separator] at hd
        cases hd
      · obtain ⟨rfl, -⟩ := List.cons_prefix_cons.mp (List.cons_prefix_cons.mp hfront).2
        exact absurd hd hc
  | case4 c rest hne hc ih =>
      intro v hv hfront
      rcases mem_rowRest.mp hv with rfl | ⟨d, u, -, hu, rfl⟩ | ⟨d, u, -, -, rfl⟩
      · exact Nat.zero_le _
      · exact Nat.succ_le_succ (ih u hu (List.cons_prefix_cons.mp hfront).2)
      · obtain ⟨rfl, -⟩ := List.cons_prefix_cons.mp hfront
        rw [isIdentPart_separator] at hc
        cases hc
  | case5 c rest hne hc =>
      intro v hv hfront
      rcases mem_rowRest.mp hv with rfl | ⟨d, u, hd, -, rfl⟩ | ⟨d, u, -, -, rfl⟩
      · exact Nat.zero_le _
      · obtain ⟨rfl, -⟩ := List.cons_prefix_cons.mp hfront
        exact absurd hd hc
      · obtain ⟨rfl, more, hmore⟩ := List.cons_prefix_cons.mp hfront
        exact absurd hmore.symm (hne d _ rfl)

theorem identifiers?_finds (cs : List Char) : Finds identifierRow cs (identifiers? cs) := by
  rw [identifierRow_eq]
  unfold identifiers?
  split
  · rename_i c rest
    split
    · rename_i hc
      obtain ⟨hmem, hfront⟩ := nameTail_mem rest
      refine ⟨mem_oneOf_mul.mpr ⟨c, _, hc, hmem, rfl⟩, List.cons_prefix_cons.mpr ⟨rfl, hfront⟩, ?_⟩
      intro v hv hv'
      obtain ⟨d, u, -, hu, rfl⟩ := mem_oneOf_mul.mp hv
      exact Nat.succ_le_succ (nameTail_longest rest u hu (List.cons_prefix_cons.mp hv').2)
    · rename_i hc
      intro v hv hv'
      obtain ⟨d, u, hd, -, rfl⟩ := mem_oneOf_mul.mp hv
      obtain ⟨rfl, -⟩ := List.cons_prefix_cons.mp hv'
      exact hc hd
  · intro v hv hv'
    obtain ⟨d, u, -, -, rfl⟩ := mem_oneOf_mul.mp hv
    exact List.cons_ne_nil d u (List.prefix_nil.mp hv')

theorem identifierRow_head {w : List Char} (h : w ∈ identifierRow) :
    ∃ c v, Text.isIdentStart c = true ∧ v ∈ rowRest ∧ w = c :: v := by
  rw [identifierRow_eq] at h
  exact mem_oneOf_mul.mp h

theorem identifierRow_avoids {c : Char} (hc : Text.isIdentStart c = false) :
    Avoids identifierRow c := by
  intro w hw hhead
  obtain ⟨d, v, hd, -, rfl⟩ := identifierRow_head hw
  cases hhead
  rw [hc] at hd
  cases hd

theorem nil_not_mem_identifierRow : [] ∉ identifierRow := by
  intro h
  obtain ⟨c, v, -, -, hv⟩ := identifierRow_head h
  cases hv

theorem dollarName?_finds (cs : List Char) :
    Finds (optional {['$']} * identifierRow) cs (dollarName? cs) := by
  unfold dollarName?
  split
  · rename_i rest
    exact (identifiers?_finds rest).optional_some (identifierRow_avoids (by decide))
      nil_not_mem_identifierRow
  · rename_i hne
    refine (identifiers?_finds cs).optional_none fun hhead => ?_
    obtain ⟨rest, rfl⟩ := List.head?_eq_some_iff.mp hhead
    exact hne rest rfl

/-- What a name starts with behind its separator. -/
theorem dollarName_head {w : List Char} (h : w ∈ optional {['$']} * identifierRow) :
    ∃ c v, (c = '$' ∨ Text.isIdentStart c = true) ∧ w = c :: v := by
  rcases mem_optional_mul.mp h with h | h
  · obtain ⟨c, v, hc, -, rfl⟩ := identifierRow_head h
    exact ⟨c, v, .inr hc, rfl⟩
  · obtain ⟨v, -, rfl⟩ := mem_char_mul.mp h
    exact ⟨'$', v, .inl rfl, rfl⟩

theorem name?_finds (cs : List Char) : Finds nameLexeme cs (name? cs) := by
  unfold name?
  split
  · rename_i rest
    refine (dollarName?_finds rest).optional_some (fun w hw hhead => ?_) fun hnil => ?_
    · obtain ⟨c, v, hc, rfl⟩ := dollarName_head hw
      cases hhead
      revert hc
      decide
    · obtain ⟨c, v, -, hv⟩ := dollarName_head hnil
      cases hv
  · rename_i hne
    refine (dollarName?_finds cs).optional_none fun hhead => ?_
    obtain ⟨rest, rfl⟩ := List.head?_eq_some_iff.mp hhead
    exact hne rest rfl

theorem identifierRow_spares {c : Char} (hpart : Text.isIdentPart c = false)
    (hseparator : c ≠ '\\') : Spares identifierRow c := by
  have hstart : Text.isIdentStart c = false := (Bool.or_eq_false_iff.mp hpart).1
  have hidentifier : Spares identifier c := (spares_oneOf hstart).mul (spares_oneOf hpart).star
  exact hidentifier.mul ((spares_char hseparator).mul hidentifier).star

theorem nameLexeme_spares {c : Char} (hpart : Text.isIdentPart c = false) (hseparator : c ≠ '\\')
    (hdollar : c ≠ '$') : Spares nameLexeme c :=
  (spares_char hseparator).optional.mul
    ((spares_char hdollar).optional.mul (identifierRow_spares hpart hseparator))

/-! ## 3. Strings -/

/-- The rest of a string is its closing quote, or goes on with another character, or with a
    doubled quote. -/
theorem mem_stringRest {w : List Char} :
    w ∈ stringRest ↔ w = ['"'] ∨ (∃ c v, c ≠ '"' ∧ v ∈ stringRest ∧ w = c :: v) ∨
      ∃ v ∈ stringRest, w = '"' :: '"' :: v := by
  constructor
  · intro h
    obtain ⟨a, ha, b, hb, rfl⟩ := Language.mem_mul.mp h
    rcases mem_star_iff.mp ha with rfl | ⟨q, hq, more, hmore, rfl⟩
    · exact .inl hb
    · have hrest : more ++ b ∈ stringRest := Language.mem_mul.mpr ⟨more, hmore, b, hb, rfl⟩
      rcases (Language.mem_add _ _ _).mp hq with ⟨c, hc, rfl⟩ | rfl
      · exact .inr (.inl ⟨c, more ++ b, of_decide_eq_true hc, hrest, rfl⟩)
      · exact .inr (.inr ⟨more ++ b, hrest, rfl⟩)
  · rintro (rfl | ⟨c, v, hc, hv, rfl⟩ | ⟨v, hv, rfl⟩)
    · exact Language.mem_mul.mpr ⟨[], mem_star_iff.mpr (.inl rfl), ['"'], rfl, rfl⟩
    · obtain ⟨a, ha, b, hb, rfl⟩ := Language.mem_mul.mp hv
      have hround : [c] ∈ oneOf (· ≠ '"') + {['"', '"']} := .inl ⟨c, decide_eq_true hc, rfl⟩
      refine Language.mem_mul.mpr ⟨c :: a, ?_, b, hb, rfl⟩
      exact mem_star_iff.mpr (.inr ⟨_, hround, a, ha, rfl⟩)
    · obtain ⟨a, ha, b, hb, rfl⟩ := Language.mem_mul.mp hv
      have hround : ['"', '"'] ∈ oneOf (· ≠ '"') + {['"', '"']} := .inr rfl
      refine Language.mem_mul.mpr ⟨'"' :: '"' :: a, ?_, b, hb, rfl⟩
      exact mem_star_iff.mpr (.inr ⟨_, hround, a, ha, rfl⟩)

/-- Induction on the rest of a string. -/
@[elab_as_elim]
theorem stringRest_induction {motive : (w : List Char) → w ∈ stringRest → Prop}
    (closing : motive ['"'] (mem_stringRest.mpr (.inl rfl)))
    (char : ∀ c v (hc : c ≠ '"') (hv : v ∈ stringRest), motive v hv →
      motive (c :: v) (mem_stringRest.mpr (.inr (.inl ⟨c, v, hc, hv, rfl⟩))))
    (doubled : ∀ v (hv : v ∈ stringRest), motive v hv →
      motive ('"' :: '"' :: v) (mem_stringRest.mpr (.inr (.inr ⟨v, hv, rfl⟩))))
    (w : List Char) (h : w ∈ stringRest) : motive w h := by
  induction hn : w.length using Nat.strong_induction_on generalizing w with
  | _ n ih =>
      subst hn
      rcases mem_stringRest.mp h with rfl | ⟨c, v, hc, hv, rfl⟩ | ⟨v, hv, rfl⟩
      · exact closing
      · exact char c v hc hv (ih v.length (Nat.lt_succ_self _) v hv rfl)
      · exact doubled v hv (ih v.length (Nat.lt_add_of_pos_right Nat.two_pos) v hv rfl)

/-- A quote that no quote follows ends the string. -/
theorem stringRest_of_quote {v cs : List Char} (hv : v ∈ stringRest) (hfront : v <+: '"' :: cs)
    (hnone : ∀ u ∈ stringRest, ¬ '"' :: u <+: cs) : v = ['"'] := by
  rcases mem_stringRest.mp hv with rfl | ⟨c, u, hc, -, rfl⟩ | ⟨u, hu, rfl⟩
  · rfl
  · exact absurd (List.cons_prefix_cons.mp hfront).1 hc
  · exact absurd (List.cons_prefix_cons.mp hfront).2 (hnone u hu)

theorem stringTail?_finds (cs : List Char) : Finds stringRest cs (stringTail? cs) := by
  have hclosing : ['"'] ∈ stringRest := mem_stringRest.mpr (.inl rfl)
  fun_induction stringTail? cs with
  | case1 =>
      intro v hv hfront
      rw [List.prefix_nil.mp hfront] at hv
      rcases mem_stringRest.mp hv with h | ⟨_, _, -, -, h⟩ | ⟨_, -, h⟩ <;> cases h
  | case2 rest tail htail ih =>
      rw [htail] at ih
      obtain ⟨hmem, hfront, hlong⟩ := ih
      refine ⟨mem_stringRest.mpr (.inr (.inr ⟨tail, hmem, rfl⟩)), ?_, fun v hv hv' => ?_⟩
      · exact List.cons_prefix_cons.mpr ⟨rfl, List.cons_prefix_cons.mpr ⟨rfl, hfront⟩⟩
      · rcases mem_stringRest.mp hv with rfl | ⟨c, u, hc, -, rfl⟩ | ⟨u, hu, rfl⟩
        · exact Nat.succ_le_succ (Nat.zero_le _)
        · exact absurd (List.cons_prefix_cons.mp hv').1 hc
        · have hrest := (List.cons_prefix_cons.mp (List.cons_prefix_cons.mp hv').2).2
          exact Nat.succ_le_succ (Nat.succ_le_succ (hlong u hu hrest))
  | case3 rest hnone ih =>
      rw [hnone] at ih
      refine ⟨hclosing, List.cons_prefix_cons.mpr ⟨rfl, List.nil_prefix⟩, fun v hv hv' => ?_⟩
      rw [stringRest_of_quote hv hv' fun u hu h => ih u hu (List.cons_prefix_cons.mp h).2]
  | case4 rest hne =>
      refine ⟨hclosing, List.cons_prefix_cons.mpr ⟨rfl, List.nil_prefix⟩, fun v hv hv' => ?_⟩
      rw [stringRest_of_quote hv hv' fun u hu h => ?_]
      obtain ⟨more, rfl⟩ := h
      exact hne _ rfl rfl
  | case5 c rest hne hc ih =>
      have hothers : ∀ v ∈ stringRest, v <+: c :: rest → ∃ u ∈ stringRest, v = c :: u := by
        intro v hv hv'
        rcases mem_stringRest.mp hv with rfl | ⟨d, u, -, hu, rfl⟩ | ⟨u, hu, rfl⟩
        · exact absurd (List.cons_prefix_cons.mp hv').1.symm hc
        · rw [(List.cons_prefix_cons.mp hv').1]
          exact ⟨u, hu, rfl⟩
        · exact absurd (List.cons_prefix_cons.mp hv').1.symm hc
      cases htail : stringTail? rest with
      | none =>
          rw [htail] at ih
          intro v hv hv'
          obtain ⟨u, hu, rfl⟩ := hothers v hv hv'
          exact ih u hu (List.cons_prefix_cons.mp hv').2
      | some tail =>
          rw [htail] at ih
          obtain ⟨hmem, hfront, hlong⟩ := ih
          refine ⟨mem_stringRest.mpr (.inr (.inl ⟨c, tail, hc, hmem, rfl⟩)), ?_, fun v hv hv' => ?_⟩
          · exact List.cons_prefix_cons.mpr ⟨rfl, hfront⟩
          · obtain ⟨u, hu, rfl⟩ := hothers v hv hv'
            exact Nat.succ_le_succ (hlong u hu (List.cons_prefix_cons.mp hv').2)

end Marginalia.Expression

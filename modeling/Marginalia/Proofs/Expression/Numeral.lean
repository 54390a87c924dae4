import Mathlib.Data.List.TakeWhile
import Marginalia.Expression.Token
import Marginalia.Proofs.Expression.Language

/-!
# Numerals

What numbers are made of, as a language, and that the reader of numbers finds the longest one in
front of a text (`number?_finds`).
-/

namespace Marginalia.Expression

open Computability

/-! ## 1. The languages -/

/-- The digits of a number before its exponent. -/
def mantissaLexeme : Language Char :=
  someOf Text.isDigit * ({['.']} * manyOf Text.isDigit) + {['.']} * someOf Text.isDigit +
    someOf Text.isDigit

/-- A sign of an exponent. -/
def isExponentSign (c : Char) : Bool := c = '-' || c = '+'

/-- Exponents. -/
def exponentLexeme : Language Char :=
  oneOf Number.isExponentMark * (optional (oneOf isExponentSign) * someOf Text.isDigit)

/-- Numbers. -/
def numberLexeme : Language Char :=
  optional {['-']} * (mantissaLexeme * optional exponentLexeme)

/-! ## 2. Numbers -/

theorem isDigit_range {c : Char} (h : Text.isDigit c = true) :
    (0x30 ≤ c.toNat ∧ c.toNat ≤ 0x39) ∨ 0x660 ≤ c.toNat := by
  have hzeros : ∀ z ∈ Text.zeros, z = 0x30 ∨ 0x660 ≤ z := by decide
  unfold Text.isDigit Text.digitValue? at h
  rw [Option.isSome_map, List.find?_isSome] at h
  obtain ⟨z, hz, hrange⟩ := h
  rw [Bool.and_eq_true, decide_eq_true_eq, decide_eq_true_eq] at hrange
  have := hzeros z hz
  omega

/-- The digits in front of a text are the longest row of digits there. -/
theorem length_le_digits {v cs : List Char} (hv : ∀ c ∈ v, Text.isDigit c = true)
    (hfront : v <+: cs) : v.length ≤ (digits cs).length := by
  obtain ⟨rest, rfl⟩ := hfront
  unfold digits
  rw [List.takeWhile_append_of_pos hv, List.length_append]
  exact Nat.le_add_right _ _

theorem digits_all (cs : List Char) : ∀ c ∈ digits cs, Text.isDigit c = true :=
  fun _ hc => List.mem_takeWhile_imp hc

theorem digits_front (cs : List Char) : digits cs <+: cs := List.takeWhile_prefix _

/-- A row of digits up to another character is all the digits in front. -/
theorem digits_append_cons {v : List Char} {c : Char} (rest : List Char)
    (hv : ∀ d ∈ v, Text.isDigit d = true) (hc : Text.isDigit c = false) :
    digits (v ++ c :: rest) = v ∧ (v ++ c :: rest).dropWhile Text.isDigit = c :: rest := by
  constructor
  · unfold digits
    rw [List.takeWhile_append_of_pos hv, List.takeWhile_cons_of_neg (by rw [hc]; decide),
      List.append_nil]
  · rw [List.dropWhile_append_of_pos hv, List.dropWhile_cons_of_neg (by rw [hc]; decide)]

theorem mem_mantissaLexeme {w : List Char} :
    w ∈ mantissaLexeme ↔
      (∃ a b, a ≠ [] ∧ (∀ c ∈ a, Text.isDigit c = true) ∧ (∀ c ∈ b, Text.isDigit c = true) ∧
        w = a ++ '.' :: b) ∨
      (∃ b, b ≠ [] ∧ (∀ c ∈ b, Text.isDigit c = true) ∧ w = '.' :: b) ∨
      (w ≠ [] ∧ ∀ c ∈ w, Text.isDigit c = true) := by
  unfold mantissaLexeme
  rw [Language.mem_add, Language.mem_add, or_assoc, mem_someOf]
  refine or_congr ?_ (or_congr ?_ Iff.rfl)
  · constructor
    · intro h
      obtain ⟨a, ha, u, hu, rfl⟩ := Language.mem_mul.mp h
      obtain ⟨b, hb, rfl⟩ := mem_char_mul.mp hu
      obtain ⟨hne, ha⟩ := mem_someOf.mp ha
      exact ⟨a, b, hne, ha, mem_manyOf.mp hb, rfl⟩
    · rintro ⟨a, b, hne, ha, hb, rfl⟩
      refine Language.mem_mul.mpr ⟨a, mem_someOf.mpr ⟨hne, ha⟩, '.' :: b, ?_, rfl⟩
      exact mem_char_mul.mpr ⟨b, mem_manyOf.mpr hb, rfl⟩
  · constructor
    · intro h
      obtain ⟨b, hb, rfl⟩ := mem_char_mul.mp h
      obtain ⟨hne, hb⟩ := mem_someOf.mp hb
      exact ⟨b, hne, hb, rfl⟩
    · rintro ⟨b, hne, hb, rfl⟩
      exact mem_char_mul.mpr ⟨b, mem_someOf.mpr ⟨hne, hb⟩, rfl⟩

theorem isDigit_point : Text.isDigit '.' = false := by decide

/-- Every mantissa in front of a text shows how the text starts. -/
theorem mantissa_front {v cs : List Char} (hv : v ∈ mantissaLexeme) (hfront : v <+: cs) :
    (∃ rest, cs.dropWhile Text.isDigit = '.' :: rest ∧ (digits cs ≠ [] ∨ digits rest ≠ []) ∧
      v.length ≤ (digits cs).length + 1 + (digits rest).length) ∨
    (digits cs ≠ [] ∧ v.length ≤ (digits cs).length) := by
  rcases mem_mantissaLexeme.mp hv with ⟨a, b, hne, ha, hb, rfl⟩ | ⟨b, hne, hb, rfl⟩ | ⟨hne, hall⟩
  · obtain ⟨more, rfl⟩ := hfront
    rw [List.append_assoc, List.cons_append]
    obtain ⟨hdigits, hrest⟩ := digits_append_cons (b ++ more) ha isDigit_point
    refine .inl ⟨b ++ more, hrest, ?_, ?_⟩
    · rw [hdigits]
      exact .inl hne
    · have hlen := length_le_digits hb (List.prefix_append b more)
      rw [hdigits, List.length_append, List.length_cons]
      omega
  · obtain ⟨more, rfl⟩ := hfront
    obtain ⟨hdigits, hrest⟩ := digits_append_cons (v := []) (b ++ more) nofun isDigit_point
    have hlen := length_le_digits hb (List.prefix_append b more)
    have hpos := List.length_pos_iff.mpr hne
    refine .inl ⟨b ++ more, hrest, .inr fun hnil => ?_, ?_⟩
    · rw [hnil, List.length_nil] at hlen
      omega
    · rw [List.length_cons]
      omega
  · have hlen := length_le_digits hall hfront
    refine .inr ⟨fun hnil => ?_, hlen⟩
    rw [hnil] at hlen
    exact hne (List.length_eq_zero_iff.mp (Nat.le_zero.mp hlen))

theorem mantissa?_finds (cs : List Char) : Finds mantissaLexeme cs (mantissa? cs) := by
  have hcut : digits cs ++ cs.dropWhile Text.isDigit = cs := List.takeWhile_append_dropWhile
  unfold mantissa?
  split
  · rename_i rest hdigits hrest
    rw [hdigits, hrest, List.nil_append] at hcut
    split
    · rename_i hempty
      intro v hv hfront
      have hnil := List.isEmpty_iff.mp hempty
      rcases mantissa_front hv hfront with ⟨r, hr, hsome, -⟩ | ⟨hsome, -⟩
      · rw [hrest] at hr
        cases hr
        rcases hsome with hsome | hsome
        · exact hsome hdigits
        · exact hsome hnil
      · exact hsome hdigits
    · rename_i hempty
      have hne : digits rest ≠ [] := fun h => hempty (List.isEmpty_iff.mpr h)
      refine ⟨mem_mantissaLexeme.mpr (.inr (.inl ⟨_, hne, digits_all rest, rfl⟩)), ?_, ?_⟩
      · rw [← hcut]
        exact List.cons_prefix_cons.mpr ⟨rfl, digits_front rest⟩
      · intro v hv hfront
        rcases mantissa_front hv hfront with ⟨r, hr, -, hlen⟩ | ⟨hsome, -⟩
        · rw [hrest] at hr
          cases hr
          rw [hdigits, List.length_nil] at hlen
          rw [List.length_cons]
          omega
        · exact absurd hdigits hsome
  · rename_i hdigits hrest
    intro v hv hfront
    rcases mantissa_front hv hfront with ⟨r, hr, -, -⟩ | ⟨hsome, -⟩
    · exact hrest r hr
    · exact hsome hdigits
  · rename_i rest hrest hne
    rw [hrest] at hcut
    refine ⟨mem_mantissaLexeme.mpr (.inl ⟨_, _, hne, digits_all cs, digits_all rest, rfl⟩), ?_, ?_⟩
    · obtain ⟨more, hmore⟩ := digits_front rest
      refine ⟨more, ?_⟩
      rw [List.append_assoc, List.cons_append, hmore]
      exact hcut
    · intro v hv hfront
      rw [List.length_append, List.length_cons]
      rcases mantissa_front hv hfront with ⟨r, hr, -, hlen⟩ | ⟨-, hlen⟩
      · rw [hrest] at hr
        cases hr
        omega
      · omega
  · rename_i hne hrest _
    refine ⟨mem_mantissaLexeme.mpr (.inr (.inr ⟨hne, digits_all cs⟩)), digits_front cs, ?_⟩
    intro v hv hfront
    rcases mantissa_front hv hfront with ⟨r, hr, -, -⟩ | ⟨-, hlen⟩
    · exact absurd hr (hrest r)
    · exact hlen

theorem mem_exponentLexeme {w : List Char} :
    w ∈ exponentLexeme ↔ ∃ mark b, Number.isExponentMark mark = true ∧ b ≠ [] ∧
      (∀ c ∈ b, Text.isDigit c = true) ∧
      (w = mark :: b ∨ ∃ sign, isExponentSign sign = true ∧ w = mark :: sign :: b) := by
  unfold exponentLexeme
  rw [mem_oneOf_mul]
  constructor
  · rintro ⟨mark, v, hmark, hv, rfl⟩
    rcases mem_optional_mul.mp hv with hv | hv
    · obtain ⟨hne, hall⟩ := mem_someOf.mp hv
      exact ⟨mark, v, hmark, hne, hall, .inl rfl⟩
    · obtain ⟨sign, b, hsign, hb, rfl⟩ := mem_oneOf_mul.mp hv
      obtain ⟨hne, hall⟩ := mem_someOf.mp hb
      exact ⟨mark, b, hmark, hne, hall, .inr ⟨sign, hsign, rfl⟩⟩
  · rintro ⟨mark, b, hmark, hne, hall, rfl | ⟨sign, hsign, rfl⟩⟩
    · refine ⟨mark, b, hmark, mem_optional_mul.mpr (.inl ?_), rfl⟩
      exact mem_someOf.mpr ⟨hne, hall⟩
    · refine ⟨mark, sign :: b, hmark, mem_optional_mul.mpr (.inr ?_), rfl⟩
      exact mem_oneOf_mul.mpr ⟨sign, b, hsign, mem_someOf.mpr ⟨hne, hall⟩, rfl⟩

theorem isDigit_of_exponentSign {c : Char} (h : isExponentSign c = true) :
    Text.isDigit c = false := by
  unfold isExponentSign at h
  rw [Bool.or_eq_true, decide_eq_true_eq, decide_eq_true_eq] at h
  rcases h with rfl | rfl <;> decide

/-- Every exponent in front of a text shows how the text starts. -/
theorem exponent_front {v cs : List Char} (hv : v ∈ exponentLexeme) (hfront : v <+: cs) :
    ∃ mark next rest, cs = mark :: next :: rest ∧ Number.isExponentMark mark = true ∧
      ((isExponentSign next = true ∧ digits rest ≠ [] ∧ v.length ≤ 2 + (digits rest).length) ∨
        (isExponentSign next = false ∧ digits (next :: rest) ≠ [] ∧
          v.length ≤ 1 + (digits (next :: rest)).length)) := by
  obtain ⟨more, rfl⟩ := hfront
  obtain ⟨mark, b, hmark, hne, hall, rfl | ⟨sign, hsign, rfl⟩⟩ := mem_exponentLexeme.mp hv
  · have hlen := length_le_digits hall (List.prefix_append b more)
    have hpos := List.length_pos_iff.mpr hne
    cases b with
    | nil => exact absurd rfl hne
    | cons next b =>
        refine ⟨mark, next, b ++ more, rfl, hmark, .inr ⟨?_, fun hnil => ?_, ?_⟩⟩
        · cases hsign : isExponentSign next with
          | false => rfl
          | true =>
              have hdigit := hall next List.mem_cons_self
              rw [isDigit_of_exponentSign hsign] at hdigit
              cases hdigit
        · rw [List.cons_append, hnil, List.length_nil] at hlen
          omega
        · rw [List.cons_append] at hlen
          rw [List.length_cons]
          omega
  · have hlen := length_le_digits hall (List.prefix_append b more)
    have hpos := List.length_pos_iff.mpr hne
    refine ⟨mark, sign, b ++ more, rfl, hmark, .inl ⟨hsign, fun hnil => ?_, ?_⟩⟩
    · rw [hnil, List.length_nil] at hlen
      omega
    · rw [List.length_cons, List.length_cons]
      omega

theorem exponent_mem (cs : List Char) :
    exponent cs ∈ optional exponentLexeme ∧ exponent cs <+: cs := by
  have hnone : [] ∈ optional exponentLexeme ∧ [] <+: cs := ⟨.inl rfl, List.nil_prefix⟩
  unfold exponent
  split
  · rename_i mark sign rest
    split
    · rename_i hmark
      split
      · rename_i hsign
        split
        · exact hnone
        · rename_i hempty
          have hne : digits rest ≠ [] := fun h => hempty (List.isEmpty_iff.mpr h)
          refine ⟨.inr (mem_exponentLexeme.mpr
            ⟨mark, _, hmark, hne, digits_all rest, .inr ⟨sign, hsign, rfl⟩⟩), ?_⟩
          exact List.cons_prefix_cons.mpr ⟨rfl, List.cons_prefix_cons.mpr ⟨rfl, digits_front rest⟩⟩
      · split
        · exact hnone
        · rename_i hempty
          have hne : digits (sign :: rest) ≠ [] := fun h => hempty (List.isEmpty_iff.mpr h)
          refine ⟨.inr (mem_exponentLexeme.mpr
            ⟨mark, _, hmark, hne, digits_all _, .inl rfl⟩), ?_⟩
          exact List.cons_prefix_cons.mpr ⟨rfl, digits_front _⟩
    · exact hnone
  · exact hnone

theorem exponent_longest {v cs : List Char} (hv : v ∈ exponentLexeme) (hfront : v <+: cs) :
    v.length ≤ (exponent cs).length := by
  obtain ⟨mark, next, rest, rfl, hmark, hnext⟩ := exponent_front hv hfront
  show _ ≤ (if Number.isExponentMark mark then
    if isExponentSign next then
      if (digits rest).isEmpty then [] else mark :: next :: digits rest
    else if (digits (next :: rest)).isEmpty then [] else mark :: digits (next :: rest)
    else []).length
  rw [if_pos hmark]
  rcases hnext with ⟨hsign, hne, hlen⟩ | ⟨hsign, hne, hlen⟩
  · rw [if_pos hsign, if_neg fun h => hne (List.isEmpty_iff.mp h), List.length_cons,
      List.length_cons]
    omega
  · rw [hsign, if_neg Bool.false_ne_true, if_neg fun h => hne (List.isEmpty_iff.mp h),
      List.length_cons]
    omega

theorem isExponentMark_of_isDigit {c : Char} (h : Text.isDigit c = true) :
    Number.isExponentMark c = false := by
  cases hmark : Number.isExponentMark c with
  | false => rfl
  | true =>
      unfold Number.isExponentMark at hmark
      rw [Bool.or_eq_true, decide_eq_true_eq, decide_eq_true_eq] at hmark
      rcases hmark with rfl | rfl <;> exact absurd h (by decide)

/-- Nothing in a mantissa marks an exponent. -/
theorem isExponentMark_of_mantissa {w : List Char} (h : w ∈ mantissaLexeme) :
    ∀ c ∈ w, Number.isExponentMark c = false := by
  have hpoint : Number.isExponentMark '.' = false := by decide
  intro c hc
  rcases mem_mantissaLexeme.mp h with ⟨a, b, -, ha, hb, rfl⟩ | ⟨b, -, hb, rfl⟩ | ⟨-, hall⟩
  · rcases List.mem_append.mp hc with hc | hc
    · exact isExponentMark_of_isDigit (ha c hc)
    · rcases List.mem_cons.mp hc with rfl | hc
      · exact hpoint
      · exact isExponentMark_of_isDigit (hb c hc)
  · rcases List.mem_cons.mp hc with rfl | hc
    · exact hpoint
    · exact isExponentMark_of_isDigit (hb c hc)
  · exact isExponentMark_of_isDigit (hall c hc)

theorem unsigned?_finds (cs : List Char) :
    Finds (mantissaLexeme * optional exponentLexeme) cs (unsigned? cs) := by
  have hfinds := mantissa?_finds cs
  unfold unsigned?
  cases hm : mantissa? cs with
  | none =>
      rw [hm] at hfinds
      intro v hv hfront
      obtain ⟨a, ha, b, -, rfl⟩ := Language.mem_mul.mp hv
      exact hfinds a ha ((List.prefix_append a b).trans hfront)
  | some m =>
      rw [hm] at hfinds
      obtain ⟨hmem, ⟨rest, rfl⟩, hlong⟩ := hfinds
      obtain ⟨hexp, hexpFront⟩ := exponent_mem rest
      rw [Option.map_some, List.drop_left]
      refine ⟨Language.mem_mul.mpr ⟨m, hmem, _, hexp, rfl⟩, ?_, fun v hv hfront => ?_⟩
      · exact (List.prefix_append_right_inj m).mpr hexpFront
      · obtain ⟨a, ha, b, hb, rfl⟩ := Language.mem_mul.mp hv
        have haFront := (List.prefix_append a b).trans hfront
        obtain ⟨more, hmore⟩ := List.prefix_of_prefix_length_le haFront (List.prefix_append m rest)
          (hlong a ha haFront)
        rw [List.length_append, List.length_append]
        -- A shorter mantissa goes on inside the longest one, so no exponent follows it.
        cases more with
        | nil =>
            rw [List.append_nil] at hmore
            subst hmore
            have hbFront := (List.prefix_append_right_inj a).mp hfront
            rcases mem_optional.mp hb with rfl | hb
            · exact Nat.le_add_right _ _
            · have := exponent_longest hb hbFront
              omega
        | cons c more =>
            have hlen : m.length = a.length + (more.length + 1) := by
              rw [← hmore, List.length_append, List.length_cons]
            have hb : b = [] := by
              rcases mem_optional.mp hb with hb | hb
              · exact hb
              · obtain ⟨mark, u, hmark, -, hu⟩ := mem_exponentLexeme.mp hb
                have hc := isExponentMark_of_mantissa hmem c (by rw [← hmore]; simp)
                rw [← hmore, List.append_assoc] at hfront
                have hbFront := (List.prefix_append_right_inj a).mp hfront
                have hhead : mark = c := by
                  rcases hu with ⟨-, rfl | ⟨sign, -, rfl⟩⟩
                  · exact (List.cons_prefix_cons.mp hbFront).1
                  · exact (List.cons_prefix_cons.mp hbFront).1
                rw [hhead, hc] at hmark
                cases hmark
            rw [hb, List.length_nil]
            omega

/-- What a number starts with behind its sign. -/
theorem unsigned_head {w : List Char} (h : w ∈ mantissaLexeme * optional exponentLexeme) :
    ∃ c v, (c = '.' ∨ Text.isDigit c = true) ∧ w = c :: v := by
  obtain ⟨a, ha, b, -, rfl⟩ := Language.mem_mul.mp h
  rcases mem_mantissaLexeme.mp ha with ⟨d, u, hne, hd, -, rfl⟩ | ⟨u, -, -, rfl⟩ | ⟨hne, hall⟩
  · cases d with
    | nil => exact absurd rfl hne
    | cons c d => exact ⟨c, _, .inr (hd c List.mem_cons_self), rfl⟩
  · exact ⟨'.', _, .inl rfl, rfl⟩
  · cases a with
    | nil => exact absurd rfl hne
    | cons c a => exact ⟨c, _, .inr (hall c List.mem_cons_self), rfl⟩

theorem number?_finds (cs : List Char) : Finds numberLexeme cs (number? cs) := by
  unfold number?
  split
  · rename_i rest
    refine (unsigned?_finds rest).optional_some (fun w hw hhead => ?_) fun hnil => ?_
    · obtain ⟨c, v, hc, rfl⟩ := unsigned_head hw
      cases hhead
      revert hc
      decide
    · obtain ⟨c, v, -, hv⟩ := unsigned_head hnil
      cases hv
  · rename_i hne
    refine (unsigned?_finds cs).optional_none fun hhead => ?_
    obtain ⟨rest, rfl⟩ := List.head?_eq_some_iff.mp hhead
    exact hne rest rfl

theorem numberLexeme_spares {c : Char} (hdigit : Text.isDigit c = false)
    (hother : c ≠ '.' ∧ c ≠ '-' ∧ isExponentSign c = false)
    (hmark : Number.isExponentMark c = false) : Spares numberLexeme c := by
  obtain ⟨hpoint, hminus, hsign⟩ := hother
  have hmany : Spares (manyOf Text.isDigit) c := (spares_oneOf hdigit).star
  have hsome : Spares (someOf Text.isDigit) c := (spares_oneOf hdigit).mul hmany
  have hmantissa : Spares mantissaLexeme c :=
    ((hsome.mul ((spares_char hpoint).mul hmany)).add ((spares_char hpoint).mul hsome)).add hsome
  have hexponent : Spares exponentLexeme c :=
    (spares_oneOf hmark).mul ((spares_oneOf hsign).optional.mul hsome)
  exact (spares_char hminus).optional.mul (hmantissa.mul hexponent.optional)

end Marginalia.Expression

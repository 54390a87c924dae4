import Mathlib.Computability.Language
import Mathlib.Data.Bool.AllAny

/-!
# Languages of characters

The languages that lexemes are put together from, and what is found of a language in front of a
text:

* `oneOf`, `optional`, `manyOf`, `someOf`: characters of a class, options and repetitions;
* `Finds`: what is found of a language in front of a text, the longest text of it or nothing;
* `Spares`: no text of the language contains a character, so that nothing is found beyond it
  (`Finds.before`).
-/

namespace Marginalia.Expression

open Computability

/-! ## 1. Languages -/

/-- One character of a class. -/
def oneOf (p : Char → Bool) : Language Char := {w | ∃ c, p c = true ∧ w = [c]}

/-- A text of a language, or nothing. -/
def optional (l : Language Char) : Language Char := 1 + l

/-- Any number of characters of a class. -/
def manyOf (p : Char → Bool) : Language Char := (oneOf p)∗

/-- At least one character of a class. -/
def someOf (p : Char → Bool) : Language Char := oneOf p * manyOf p

/-! ## 2. Membership -/

theorem mem_singleton {w v : List Char} : w ∈ ({v} : Language Char) ↔ w = v := Iff.rfl

theorem mem_optional {l : Language Char} {w : List Char} : w ∈ optional l ↔ w = [] ∨ w ∈ l :=
  Iff.rfl

/-- A repetition is empty or starts with one round. -/
theorem mem_star_iff {l : Language Char} {w : List Char} :
    w ∈ l∗ ↔ w = [] ∨ ∃ a ∈ l, ∃ b ∈ l∗, a ++ b = w := by
  have h : w ∈ 1 + l * l∗ ↔ w ∈ l∗ := by rw [Language.one_add_self_mul_kstar_eq_kstar]
  rw [← h, Language.mem_add, Language.mem_one, Language.mem_mul]

theorem mem_oneOf_mul {p : Char → Bool} {l : Language Char} {w : List Char} :
    w ∈ oneOf p * l ↔ ∃ c v, p c = true ∧ v ∈ l ∧ w = c :: v := by
  rw [Language.mem_mul]
  constructor
  · rintro ⟨_, ⟨c, hc, rfl⟩, v, hv, rfl⟩
    exact ⟨c, v, hc, hv, rfl⟩
  · rintro ⟨c, v, hc, hv, rfl⟩
    exact ⟨[c], ⟨c, hc, rfl⟩, v, hv, rfl⟩

theorem mem_char_mul {c : Char} {l : Language Char} {w : List Char} :
    w ∈ ({[c]} : Language Char) * l ↔ ∃ v ∈ l, w = c :: v := by
  rw [Language.mem_mul]
  constructor
  · rintro ⟨_, rfl, v, hv, rfl⟩
    exact ⟨v, hv, rfl⟩
  · rintro ⟨v, hv, rfl⟩
    exact ⟨[c], rfl, v, hv, rfl⟩

theorem mem_optional_mul {k l : Language Char} {w : List Char} :
    w ∈ optional k * l ↔ w ∈ l ∨ w ∈ k * l := by
  unfold optional
  rw [add_mul, one_mul, Language.mem_add]

theorem mem_manyOf {p : Char → Bool} {w : List Char} :
    w ∈ manyOf p ↔ ∀ c ∈ w, p c = true := by
  induction w with
  | nil => exact ⟨nofun, fun _ => mem_star_iff.mpr (.inl rfl)⟩
  | cons c w ih =>
      rw [List.forall_mem_cons, ← ih]
      constructor
      · intro h
        rcases mem_star_iff.mp h with h | ⟨_, ⟨d, hd, rfl⟩, v, hv, h⟩
        · cases h
        · cases h
          exact ⟨hd, hv⟩
      · rintro ⟨hc, hw⟩
        exact mem_star_iff.mpr (.inr ⟨[c], ⟨c, hc, rfl⟩, w, hw, rfl⟩)

theorem mem_someOf {p : Char → Bool} {w : List Char} :
    w ∈ someOf p ↔ w ≠ [] ∧ ∀ c ∈ w, p c = true := by
  unfold someOf
  rw [mem_oneOf_mul]
  constructor
  · rintro ⟨c, v, hc, hv, rfl⟩
    exact ⟨List.cons_ne_nil c v, List.forall_mem_cons.mpr ⟨hc, mem_manyOf.mp hv⟩⟩
  · rintro ⟨hne, hall⟩
    cases w with
    | nil => exact absurd rfl hne
    | cons c v =>
        obtain ⟨hc, hv⟩ := List.forall_mem_cons.mp hall
        exact ⟨c, v, hc, mem_manyOf.mpr hv, rfl⟩

/-! ## 3. What is found in front of a text -/

/-- What is found of a language in front of a text: its longest text there, or nothing if it has
    none there. -/
def Finds (l : Language Char) (text : List Char) : Option (List Char) → Prop
  | some w => w ∈ l ∧ w <+: text ∧ ∀ v ∈ l, v <+: text → v.length ≤ w.length
  | none => ∀ v ∈ l, ¬v <+: text

/-- What is found is determined. -/
theorem Finds.unique {l : Language Char} {text : List Char} {r r' : Option (List Char)}
    (h : Finds l text r) (h' : Finds l text r') : r = r' := by
  cases r with
  | none =>
      cases r' with
      | none => rfl
      | some w => exact absurd h'.2.1 (h w h'.1)
  | some v =>
      cases r' with
      | none => exact absurd h.2.1 (h' v h.1)
      | some w =>
          have hlength : v.length = w.length :=
            Nat.le_antisymm (h'.2.2 v h.1 h.2.1) (h.2.2 w h'.1 h'.2.1)
          rw [(List.prefix_of_prefix_length_le h.2.1 h'.2.1 hlength.le).eq_of_length hlength]

/-- Behind a fixed character. -/
theorem Finds.behind {l : Language Char} {text : List Char} {r : Option (List Char)}
    (h : Finds l text r) (c : Char) : Finds ({[c]} * l) (c :: text) (r.map (c :: ·)) := by
  cases r with
  | none =>
      intro v hv hfront
      obtain ⟨u, hu, rfl⟩ := mem_char_mul.mp hv
      exact h u hu (List.cons_prefix_cons.mp hfront).2
  | some w =>
      obtain ⟨hw, hfront, hlong⟩ := h
      refine ⟨mem_char_mul.mpr ⟨w, hw, rfl⟩, List.cons_prefix_cons.mpr ⟨rfl, hfront⟩, ?_⟩
      intro v hv hv'
      obtain ⟨u, hu, rfl⟩ := mem_char_mul.mp hv
      exact Nat.succ_le_succ (hlong u hu (List.cons_prefix_cons.mp hv').2)

/-- A text of which no text of the language starts with a character. -/
def Avoids (l : Language Char) (c : Char) : Prop := ∀ w ∈ l, w.head? ≠ some c

/-- Behind an optional character that is there. -/
theorem Finds.optional_some {l : Language Char} {text : List Char} {r : Option (List Char)}
    {c : Char} (h : Finds l text r) (hc : Avoids l c) (hl : [] ∉ l) :
    Finds (optional {[c]} * l) (c :: text) (r.map (c :: ·)) := by
  have hbehind := h.behind c
  have hothers : ∀ v ∈ l, ¬v <+: c :: text := by
    intro v hv hfront
    cases v with
    | nil => exact hl hv
    | cons d v =>
        obtain ⟨rfl, -⟩ := List.cons_prefix_cons.mp hfront
        exact hc _ hv rfl
  cases r with
  | none =>
      intro v hv hfront
      rcases mem_optional_mul.mp hv with hv | hv
      · exact hothers v hv hfront
      · exact hbehind v hv hfront
  | some w =>
      obtain ⟨hw, hfront, hlong⟩ := hbehind
      refine ⟨mem_optional_mul.mpr (.inr hw), hfront, fun v hv hv' => ?_⟩
      rcases mem_optional_mul.mp hv with hv | hv
      · exact absurd hv' (hothers v hv)
      · exact hlong v hv hv'

/-- Behind an optional character that is not there. -/
theorem Finds.optional_none {l : Language Char} {text : List Char} {r : Option (List Char)}
    {c : Char} (h : Finds l text r) (hc : text.head? ≠ some c) :
    Finds (optional {[c]} * l) text r := by
  have hothers : ∀ v ∈ ({[c]} : Language Char) * l, ¬v <+: text := by
    intro v hv hfront
    obtain ⟨u, -, rfl⟩ := mem_char_mul.mp hv
    obtain ⟨more, rfl⟩ := hfront
    exact hc rfl
  cases r with
  | none =>
      intro v hv hfront
      rcases mem_optional_mul.mp hv with hv | hv
      · exact h v hv hfront
      · exact hothers v hv hfront
  | some w =>
      obtain ⟨hw, hfront, hlong⟩ := h
      refine ⟨mem_optional_mul.mpr (.inl hw), hfront, fun v hv hv' => ?_⟩
      rcases mem_optional_mul.mp hv with hv | hv
      · exact hlong v hv hv'
      · exact absurd hv' (hothers v hv)

/-! ## 4. Characters that a language spares -/

/-- No text of the language contains the character. -/
def Spares (l : Language Char) (c : Char) : Prop := ∀ w ∈ l, c ∉ w

theorem spares_oneOf {p : Char → Bool} {c : Char} (h : p c = false) : Spares (oneOf p) c := by
  rintro w ⟨d, hd, rfl⟩ hmem
  rw [List.mem_singleton.mp hmem, hd] at h
  cases h

theorem spares_char {c d : Char} (h : c ≠ d) : Spares {[d]} c := by
  intro w hw hmem
  rw [mem_singleton.mp hw] at hmem
  exact h (List.mem_singleton.mp hmem)

theorem Spares.add {k l : Language Char} {c : Char} (hk : Spares k c) (hl : Spares l c) :
    Spares (k + l) c := by
  intro w hw
  rcases (Language.mem_add _ _ _).mp hw with hw | hw
  · exact hk w hw
  · exact hl w hw

theorem Spares.mul {k l : Language Char} {c : Char} (hk : Spares k c) (hl : Spares l c) :
    Spares (k * l) c := by
  intro w hw hmem
  obtain ⟨a, ha, b, hb, rfl⟩ := Language.mem_mul.mp hw
  rcases List.mem_append.mp hmem with hmem | hmem
  · exact hk a ha hmem
  · exact hl b hb hmem

theorem Spares.star {l : Language Char} {c : Char} (h : Spares l c) : Spares l∗ c := by
  rintro w hw hmem
  obtain ⟨rounds, rfl, hrounds⟩ := Language.mem_kstar.mp hw
  obtain ⟨round, hround, hmem⟩ := List.mem_flatten.mp hmem
  exact h round (hrounds round hround) hmem

theorem Spares.optional {l : Language Char} {c : Char} (h : Spares l c) :
    Spares (optional l) c := by
  rintro w hw hmem
  rcases mem_optional.mp hw with rfl | hw
  · cases hmem
  · exact h w hw hmem

/-- A text without a character stands in front of that character or not at all. -/
theorem prefix_append_cons_iff {w u : List Char} {c : Char} (hc : c ∉ w) (rest : List Char) :
    w <+: u ++ c :: rest ↔ w <+: u := by
  constructor
  · intro h
    rcases List.prefix_or_prefix_of_prefix h (List.prefix_append u (c :: rest)) with h' | h'
    · exact h'
    · obtain ⟨more, rfl⟩ := h'
      rw [List.prefix_append_right_inj] at h
      cases more with
      | nil => rw [List.append_nil]
      | cons d more =>
          rw [(List.cons_prefix_cons.mp h).1] at hc
          exact absurd (List.mem_append_right u List.mem_cons_self) hc
  · intro h
    exact h.trans (List.prefix_append _ _)

/-- Nothing is found beyond a character that the language spares. -/
theorem Finds.before {l : Language Char} {u : List Char} {c : Char} {r : Option (List Char)}
    (h : Finds l u r) (hc : Spares l c) (rest : List Char) : Finds l (u ++ c :: rest) r := by
  cases r with
  | none =>
      intro v hv hfront
      exact h v hv ((prefix_append_cons_iff (hc v hv) rest).mp hfront)
  | some w =>
      obtain ⟨hw, hfront, hlong⟩ := h
      refine ⟨hw, hfront.trans (List.prefix_append _ _), fun v hv hv' => ?_⟩
      exact hlong v hv ((prefix_append_cons_iff (hc v hv) rest).mp hv')

end Marginalia.Expression

import Marginalia.Expression.Eval
import Marginalia.Proofs.Expression.Terminal

/-!
# Literals and what they stand for

How kinds, texts and whole numbers are written as atoms, and that the atoms stand for them again:

* `Kind.written`: the name of a kind. It leads to the kind (`kindOf_written`);
* `quote`: a text in quotes, every quote in it doubled. It is a string (`quote_mem`) and stands for
  the text (`unquote_quote`);
* `intText`: the digits of a whole number. They are a number (`intText_mem`), and it is read as the
  whole number unless it has too many digits (`readWhole_intText`).
-/

namespace Marginalia

/-- The name that an annotation of a kind is written with. -/
def Kind.written (k : Kind) : String := "SWG\\" ++ k.name

end Marginalia

namespace Marginalia.Expression

open Number (maxDigits)

/-! ## 1. Names -/

/-- A text is a name if the reader of names takes all of it. -/
theorem mem_nameLexeme {w : List Char} (h : name? w = some w) : w ∈ nameLexeme := by
  have hfinds := name?_finds w
  rw [h] at hfinds
  exact hfinds.1

/-- Every kind is found by the name that it is written with. -/
theorem kindOf_written (k : Kind) :
    kindOf Imports.builtin.entries k.written = .ok (some k) := by
  have hfull : resolveNote? k.written Imports.builtin.entries =
      some (joinNames annotationNamespace k.name) := by
    cases k <;> decide +kernel
  have hstart : namespaceStart.isPrefixOf
      (Text.lower (joinNames annotationNamespace k.name).toList) = true := by
    cases k <;> decide +kernel
  have hkey : Kind.ofKey? (String.ofList (Text.lower
      ((joinNames annotationNamespace k.name).toList.drop namespaceStart.length))) = some k := by
    cases k <;> decide +kernel
  unfold kindOf
  rw [hfull]
  dsimp only
  rw [if_pos hstart, hkey]

/-! ## 2. Strings -/

/-- A text with every quote doubled. -/
def double : List Char → List Char
  | [] => []
  | c :: rest => if c = '"' then '"' :: '"' :: double rest else c :: double rest

/-- A text in quotes. -/
def quote (s : String) : String := String.ofList ('"' :: (double s.toList ++ ['"']))

theorem double_mem (cs : List Char) : double cs ++ ['"'] ∈ stringRest := by
  induction cs with
  | nil => exact mem_stringRest.mpr (.inl rfl)
  | cons c cs ih =>
      unfold double
      split
      · exact mem_stringRest.mpr (.inr (.inr ⟨_, ih, rfl⟩))
      · rename_i hc
        exact mem_stringRest.mpr (.inr (.inl ⟨c, _, hc, ih, rfl⟩))

theorem quote_mem (s : String) : (quote s).toList ∈ stringLexeme := by
  unfold quote
  rw [String.toList_ofList]
  exact mem_char_mul.mpr ⟨_, double_mem s.toList, rfl⟩

theorem undouble_double (cs : List Char) : undouble (double cs) = cs := by
  induction cs with
  | nil => rfl
  | cons c cs ih =>
      unfold double
      split
      · rename_i hc
        rw [undouble, ih, hc]
      · rename_i hc
        rw [undouble, ih]
        rintro rest rfl
        exact absurd rfl hc

theorem unquote_quote (s : String) : unquote (quote s) = s := by
  unfold unquote quote
  rw [String.toList_ofList, List.drop_one, List.tail_cons, List.dropLast_concat, undouble_double,
    String.ofList_toList]

/-! ## 3. Whole numbers -/

theorem digitValue?_of_isDigit {c : Char} (h : c.isDigit = true) :
    Text.digitValue? c = some (c.toNat - '0'.toNat) := by
  have hrange : 48 ≤ c.toNat ∧ c.toNat ≤ 57 := Char.isDigit_iff_toNat.mp h
  have hfirst : Text.zeros = 0x30 :: Text.zeros.tail := rfl
  unfold Text.digitValue?
  rw [hfirst, List.find?_cons]
  have hzero : (decide (0x30 ≤ c.toNat) && decide (c.toNat < 0x30 + 10)) = true := by
    rw [Bool.and_eq_true, decide_eq_true_eq, decide_eq_true_eq]
    omega
  rw [hzero]
  rfl

theorem isDigit_natDigits {n : Nat} {c : Char} (h : c ∈ Text.natDigits n) :
    c.isDigit = true := Nat.isDigit_of_mem_toDigits (by decide) (by decide) h

/-- The digits of a number stand for it. -/
theorem ofDigits_natDigits (n : Nat) : Text.ofDigits (Text.natDigits n) = n := by
  have hfold : ∀ (l : List Char) (start : Nat), (∀ c ∈ l, c.isDigit = true) →
      l.foldl (fun n c => 10 * n + (Text.digitValue? c).getD 0) start =
        Nat.ofDigitChars 10 l start := by
    intro l
    induction l with
    | nil => exact fun start _ => Nat.ofDigitChars_nil.symm
    | cons c l ih =>
        intro start hl
        obtain ⟨hc, hl⟩ := List.forall_mem_cons.mp hl
        rw [List.foldl_cons, digitValue?_of_isDigit hc, ih _ hl, Nat.ofDigitChars_cons]
        rfl
  unfold Text.ofDigits
  rw [hfold _ 0 fun c hc => isDigit_natDigits hc]
  exact Nat.ofDigitChars_ten_toDigits

theorem toList_intText (n : Int) :
    (intText n).toList = (if n < 0 then ['-'] else []) ++ Text.natDigits n.natAbs :=
  String.toList_ofList

theorem natDigits_someOf (n : Nat) : Text.natDigits n ∈ someOf Text.isDigit := by
  refine mem_someOf.mpr ⟨Nat.toDigits_ne_nil, fun c hc => ?_⟩
  unfold Text.isDigit
  rw [digitValue?_of_isDigit (isDigit_natDigits hc)]
  rfl

theorem intText_mem (n : Int) : (intText n).toList ∈ numberLexeme := by
  have hdigits : Text.natDigits n.natAbs ∈ mantissaLexeme * optional exponentLexeme := by
    refine Language.mem_mul.mpr ⟨_, .inr (natDigits_someOf n.natAbs), [], .inl rfl, ?_⟩
    rw [List.append_nil]
  rw [toList_intText]
  refine mem_optional_mul.mpr ?_
  split
  · exact .inr (mem_char_mul.mpr ⟨_, hdigits, rfl⟩)
  · exact .inl hdigits

/-- Neither a sign nor a digit is a point or the mark of an exponent. -/
theorem isWholeText_intText (n : Int) : isWholeText (intText n).toList = true := by
  have hchars : ∀ c ∈ (intText n).toList, c = '-' ∨ c.isDigit = true := by
    intro c hc
    rw [toList_intText] at hc
    rcases List.mem_append.mp hc with hc | hc
    · split at hc
      · exact .inl (List.mem_singleton.mp hc)
      · cases hc
    · exact .inr (isDigit_natDigits hc)
  unfold isWholeText
  rw [Bool.not_eq_true', List.any_eq_false]
  intro c hc hpoint
  have hmarks : ∀ d ∈ ['.', 'e', 'E'], ¬(d = '-' ∨ d.isDigit = true) :=
    List.all_iff_forall_prop.mp (by decide)
  refine hmarks c ?_ (hchars c hc)
  rw [Number.isExponentMark, Bool.or_eq_true, Bool.or_eq_true, decide_eq_true_eq,
    decide_eq_true_eq, decide_eq_true_eq] at hpoint
  rcases hpoint with rfl | rfl | rfl <;> decide

theorem splitSign_intText (n : Int) :
    Number.splitSign (intText n).toList = (decide (n < 0), Text.natDigits n.natAbs) := by
  rw [toList_intText]
  by_cases hn : n < 0
  · rw [if_pos hn, decide_eq_true hn]
    rfl
  · rw [if_neg hn, decide_eq_false hn, List.nil_append]
    have hsigns : ∀ d ∈ ['-', '+'], d.isDigit = false := List.all_iff_forall_prop.mp (by decide)
    unfold Number.splitSign
    split
    · rename_i rest hrest
      have hdigit := isDigit_natDigits (n := n.natAbs) (c := '-') (hrest ▸ List.mem_cons_self)
      rw [hsigns '-' (by decide)] at hdigit
      cases hdigit
    · rename_i rest hrest
      have hdigit := isDigit_natDigits (n := n.natAbs) (c := '+') (hrest ▸ List.mem_cons_self)
      rw [hsigns '+' (by decide)] at hdigit
      cases hdigit
    · rfl

/-- A whole number can be read back: it has at most `maxDigits` digits. -/
def Short (n : Int) : Prop := n.natAbs < 10 ^ maxDigits

instance (n : Int) : Decidable (Short n) := inferInstanceAs (Decidable (_ < _))

theorem short_iff {n : Int} : Short n ↔ (Text.natDigits n.natAbs).length ≤ maxDigits :=
  (Nat.length_toDigits_le_iff (by decide) (by decide)).symm

/-- **A whole number is read back if it is short, and refused otherwise.** -/
theorem readWhole_intText (n : Int) :
    (Short n → readWhole (intText n).toList = .ok n) ∧
      (¬Short n → readWhole (intText n).toList =
        .error (.tooManyDigits (Text.natDigits n.natAbs).length)) := by
  unfold readWhole Number.readInt
  rw [splitSign_intText, short_iff]
  constructor
  · intro h
    dsimp only
    rw [if_neg (Nat.not_lt.mpr h), ofDigits_natDigits]
    congr 1
    unfold Number.signed
    by_cases hn : n < 0
    · rw [decide_eq_true hn, if_pos rfl]
      omega
    · rw [decide_eq_false hn, if_neg Bool.false_ne_true]
      omega
  · intro h
    dsimp only
    rw [if_pos (Nat.not_le.mp h)]

end Marginalia.Expression

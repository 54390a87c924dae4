import Marginalia.Text.Case

/-!
# What is in lower case stays as it is

Names are compared in lower case, and a name that has been put into lower case once may meet a
second lowering on its way. This module shows that the second one does nothing:

* `Settled`: a character that the tables leave alone;
* `runs_settle`: what a run of the table makes of its letters belongs to no run. This is a property
  of the table, checked on every two of its runs (`CaseRun.avoids`);
* `settled_lowerAfter`: so every character of a lowered text is settled, the two small sigmas and
  the parts of the dotted capital I among them.

Main statement: `lowercase_lowercase`.
-/

namespace Marginalia.Text

/-! ## 1. Settled characters -/

/-- The capital letter whose lower-case form has two characters. -/
def dottedI : Char := '\u0130'

/-- **A character that is its own lower-case form.** -/
structure Settled (c : Char) : Prop where
  dotless : c ≠ dottedI
  runless : ∀ run ∈ lowerRuns, run.has c.toNat = false

instance (c : Char) : Decidable (Settled c) :=
  decidable_of_iff (c ≠ dottedI ∧ ∀ run ∈ lowerRuns, run.has c.toNat = false)
    ⟨fun h => ⟨h.1, h.2⟩, fun h => ⟨h.dotless, h.runless⟩⟩

theorem Settled.shiftCase {c : Char} (h : Settled c) : shiftCase lowerRuns c = c := by
  have hnone : lowerRuns.find? (·.has c.toNat) = none :=
    List.find?_eq_none.mpr fun run hrun => Bool.eq_false_iff.mp (h.runless run hrun)
  simp only [Text.shiftCase, hnone]

/-- On plain letters the table says what the built-in function says: no run but the first has
    any. -/
theorem toLower_eq_shiftCase {c : Char} (h : c.toNat < 0x80) :
    c.toLower = shiftCase lowerRuns c := by
  have hbuiltin : ∀ n < 0x80, (Char.ofNat n).toLower =
      if 0x41 ≤ n ∧ n ≤ 0x5A then Char.ofNat (n + 32) else Char.ofNat n := by decide +kernel
  have hruns : lowerRuns = ⟨0x41, 0x5A, 1, 32⟩ :: lowerRuns.tail := rfl
  have htail : lowerRuns.tail.find? (·.has c.toNat) = none := by
    have hfar : ∀ run ∈ lowerRuns.tail, 0x80 ≤ run.first := by decide +kernel
    refine List.find?_eq_none.mpr fun run hrun hhas => ?_
    have hfirst := hfar run hrun
    simp only [CaseRun.has, Bool.and_eq_true, decide_eq_true_eq] at hhas
    omega
  have hletter : (CaseRun.mk 0x41 0x5A 1 32).has c.toNat =
      decide (0x41 ≤ c.toNat ∧ c.toNat ≤ 0x5A) := by
    simp [CaseRun.has, Nat.mod_one]
  have hlower := hbuiltin c.toNat h
  rw [Char.ofNat_toNat] at hlower
  rw [hlower, shiftCase, hruns, List.find?_cons, hletter]
  by_cases hcapital : 0x41 ≤ c.toNat ∧ c.toNat ≤ 0x5A
  · simp only [hcapital, and_self, if_true, decide_true]
    rfl
  · simp only [hcapital, if_false, decide_false, htail]

theorem lowerChar_eq {c : Char} (h : c ≠ dottedI) : lowerChar c = [shiftCase lowerRuns c] := by
  unfold lowerChar
  split
  · rename_i hplain
    rw [toLower_eq_shiftCase hplain]
  · exact if_neg h

theorem Settled.lowerChar {c : Char} (h : Settled c) : lowerChar c = [c] := by
  rw [lowerChar_eq h.dotless, h.shiftCase]

/-- The capital sigma is in a run. -/
theorem Settled.ne_sigma {c : Char} (h : Settled c) : c ≠ '\u03A3' := by
  rintro rfl
  exact absurd h (by decide +kernel)

/-! ## 2. What the table makes of a letter -/

namespace CaseRun

/-- The code point that a run makes of one of its own. -/
def image (run : CaseRun) (n : Nat) : Nat := (n + run.shift).toNat

/-- Whether a run leads to code points. -/
def lands (run : CaseRun) : Bool :=
  0 ≤ run.first + run.shift &&
    ((run.image run.last).blt 0xD800 ||
      (Nat.blt 0xDFFF (run.image run.first) && (run.image run.last).blt 0x110000))

/-- Whether a run leads to no letter of another: to code points in front of that one, behind it, or
    between its letters, if it has every second code point only. -/
def avoids (run other : CaseRun) : Bool :=
  (run.image run.last).blt other.first || other.last.blt (run.image run.first) ||
    (other.step == 2 && (run.step == 2 || run.first == run.last) &&
      (run.image run.first + other.first) % 2 == 1)

/-- The dotted capital I as a run of its own. -/
def dotted : CaseRun := ⟨0x130, 0x130, 1, 0⟩

variable {run other : CaseRun} {n : Nat}

theorem isValidChar_image (hlands : run.lands = true) (hn : run.has n = true) :
    (run.image n).isValidChar := by
  simp only [lands, image, Bool.and_eq_true, Bool.or_eq_true, decide_eq_true_eq, Nat.blt_eq]
    at hlands
  simp only [has, Bool.and_eq_true, decide_eq_true_eq] at hn
  unfold image Nat.isValidChar
  omega

theorem has_image (hlands : run.lands = true) (havoids : run.avoids other = true)
    (hn : run.has n = true) : other.has (run.image n) = false := by
  simp only [lands, Bool.and_eq_true, decide_eq_true_eq] at hlands
  simp only [has, Bool.and_eq_true, decide_eq_true_eq, beq_iff_eq] at hn
  simp only [avoids, Bool.and_eq_true, Bool.or_eq_true, Nat.blt_eq, beq_iff_eq] at havoids
  refine Bool.eq_false_iff.mpr fun hother => ?_
  simp only [has, Bool.and_eq_true, decide_eq_true_eq, beq_iff_eq] at hother
  unfold image at havoids hother
  -- in the last two cases the image and the other run differ in parity
  rcases havoids with (hfront | hbehind) | ⟨⟨hother2, hstep | hone⟩, hodd⟩
  · omega
  · omega
  · rw [hother2] at hother
    rw [hstep] at hn
    omega
  · rw [hother2] at hother
    omega

end CaseRun

theorem runs_land : ∀ run ∈ lowerRuns, run.lands = true := by decide +kernel

/-- **What a run of the table makes of its letters belongs to no run.** -/
theorem runs_settle {run other : CaseRun} (hrun : run ∈ lowerRuns)
    (hother : other ∈ CaseRun.dotted :: lowerRuns) : run.avoids other = true := by
  have hall : (lowerRuns.all fun run => (CaseRun.dotted :: lowerRuns).all run.avoids) = true := by
    decide +kernel
  exact List.all_eq_true.mp (List.all_eq_true.mp hall run hrun) other hother

theorem toNat_ofNat {n : Nat} (h : n.isValidChar) : (Char.ofNat n).toNat = n := by
  rw [Char.ofNat, dif_pos h]
  rfl

theorem settled_shiftCase {c : Char} (h : c ≠ dottedI) : Settled (shiftCase lowerRuns c) := by
  unfold shiftCase
  cases hfind : lowerRuns.find? (·.has c.toNat) with
  | none =>
      exact ⟨h, fun run hrun => Bool.eq_false_iff.mpr (List.find?_eq_none.mp hfind run hrun)⟩
  | some run =>
      have hrun : run ∈ lowerRuns := List.mem_of_find?_eq_some hfind
      have hhas := List.find?_some hfind
      have hlands := runs_land run hrun
      have himage : (Char.ofNat (run.image c.toNat)).toNat = run.image c.toNat :=
        toNat_ofNat (CaseRun.isValidChar_image hlands hhas)
      have hmiss : ∀ other ∈ CaseRun.dotted :: lowerRuns,
          other.has (Char.ofNat (run.image c.toNat)).toNat = false := by
        intro other hother
        rw [himage]
        exact CaseRun.has_image hlands (runs_settle hrun hother) hhas
      refine ⟨fun hdotted => ?_, fun other hother => hmiss other (List.mem_cons_of_mem _ hother)⟩
      have hdot := hmiss CaseRun.dotted List.mem_cons_self
      rw [show Char.ofNat (run.image c.toNat) = dottedI from hdotted] at hdot
      exact absurd hdot (by decide)

/-! ## 3. Texts -/

theorem settled_lowerChar (c : Char) : ∀ d ∈ lowerChar c, Settled d := by
  intro d hd
  by_cases hdotted : c = dottedI
  · have hparts : Settled 'i' ∧ Settled '\u0307' := by decide +kernel
    rw [hdotted, show lowerChar dottedI = ['i', '\u0307'] from rfl] at hd
    rcases List.mem_cons.mp hd with rfl | hd
    · exact hparts.1
    · rw [List.mem_singleton.mp hd]
      exact hparts.2
  · rw [lowerChar_eq hdotted] at hd
    rw [List.mem_singleton.mp hd]
    exact settled_shiftCase hdotted

/-- **Every character of a lowered text is settled**, … -/
theorem settled_lowerAfter (before s : List Char) : ∀ d ∈ lowerAfter before s, Settled d := by
  induction s generalizing before with
  | nil => exact fun _ hd => absurd hd List.not_mem_nil
  | cons c s ih =>
      intro d hd
      rcases List.mem_append.mp hd with hd | hd
      · by_cases hsigma : c = '\u03A3'
        · rw [if_pos hsigma] at hd
          have hsmall : Settled '\u03C2' ∧ Settled '\u03C3' := by decide +kernel
          rw [List.mem_singleton.mp hd]
          split
          · exact hsmall.1
          · exact hsmall.2
        · rw [if_neg hsigma] at hd
          exact settled_lowerChar c d hd
      · exact ih (c :: before) d hd

/-- … and settled characters stay. -/
theorem lowerAfter_settled (before : List Char) {s : List Char} (h : ∀ d ∈ s, Settled d) :
    lowerAfter before s = s := by
  induction s generalizing before with
  | nil => rfl
  | cons c s ih =>
      have hc := h c List.mem_cons_self
      rw [lowerAfter, if_neg hc.ne_sigma, hc.lowerChar,
        ih (c :: before) fun d hd => h d (List.mem_cons_of_mem c hd)]
      rfl

/-- **A text in lower case stays as it is.** -/
@[simp] theorem lowercase_lowercase (s : String) : lowercase (lowercase s) = lowercase s := by
  have hsettled := settled_lowerAfter [] s.toList
  rw [lowercase, lower, lowercase, String.toList_ofList, lower, lowerAfter_settled [] hsettled]

end Marginalia.Text

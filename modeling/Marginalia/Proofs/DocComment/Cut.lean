import Marginalia.Proofs.DocComment.Passages

/-!
# Where the text of an annotation is cut

The search for the parenthesis that closes an argument list counts parentheses and flips a mark at
every quote; the grammar has nested lists, and strings with doubled quotes in them. Both come to the
same place, whatever follows:

* `closedAt?`: the place found for the parenthesis that stands at a given one;
* `exists_opening`: a sentence with an argument list is a front without parentheses, the opening
  parenthesis, and a balanced text with the closing one behind it.

Main statement: `closed_at_end_of_sentence`.
-/

namespace Marginalia.DocComment

open Expression

/-- The number of characters up to and including the parenthesis that closes the one behind the
    first `opening` characters; none if it is never closed. -/
def closedAt? (text : List Char) (opening : Nat) : Option Nat :=
  (throughClosing? 0 false (text.drop (opening + 1))).map fun inner => opening + 1 + inner.length

/-- No parenthesis is skipped between words. -/
theorem not_mem_gap {gap : List Char} (h : Spelled gap []) : '(' ∉ gap := fun hmem =>
  Bool.noConfusion (h.isSkipped '(' hmem)

/-- A sentence with an argument list: in front of its first parenthesis stand the at sign and the
    name, and that parenthesis is closed by the last character. -/
theorem exists_opening {name : String} {arguments : Derivation (.list .arguments)} {s : List Char}
    (hs : Spelled s (Derivation.applied name arguments).words) (hend : s.getLast? = some ')') :
    ∃ front inner, s = front ++ '(' :: (inner ++ [')']) ∧ '(' ∉ front ∧ Balanced inner := by
  obtain ⟨u, rest, rfl, hu, hrest⟩ :=
    Spelled.split (a := [Word.at, ⟨.name, name⟩]) (b := arguments.words) hs
  have hlast : ∀ c ∈ rest.getLast?, isSkipped c = false := by
    intro c hc
    rw [List.getLast?_append, Option.mem_def.mp hc] at hend
    cases hend
    rfl
  obtain ⟨gap, inner, rfl, hgap, hinner⟩ := exists_inner arguments hrest hlast
  refine ⟨u ++ gap, inner, by simp, ?_, hinner⟩
  have hname : name.toList ∈ nameLexeme :=
    hu.words ⟨.name, name⟩ (List.mem_cons_of_mem _ List.mem_cons_self)
  have hspares := (lexemes_spare (c := '(') (by decide)).1 _ hname
  obtain ⟨gap₀, rest₀, rfl, hgap₀, hrest₀⟩ := hu.cons_inv
  obtain ⟨gap₁, gap₂, rfl, hgap₁, hgap₂⟩ := hrest₀.cons_inv
  simp only [List.mem_append, not_or]
  exact ⟨⟨not_mem_gap hgap₀, by decide, not_mem_gap hgap₁, hspares, not_mem_gap hgap₂⟩,
    not_mem_gap hgap⟩

/-- **Counting finds the end that the grammar gives.** A sentence with an argument list ends with
    its closing parenthesis, and anything may follow it. Then the first parenthesis of the sentence
    is closed exactly at its end. So where the sentence stands in a comment with its name right
    behind the at sign, the text that is cut out and read is the sentence, and nothing more. -/
theorem closed_at_end_of_sentence (name : String) (arguments : Derivation (.list .arguments))
    {s : List Char} (hs : Tokenised s (Derivation.applied name arguments).words)
    (hend : s.getLast? = some ')') (following : List Char) :
    closedAt? (s ++ following) (s.idxOf '(') = some s.length ∧
      ∀ (aliases : Aliases) (before : Option Char), mayStart before = true →
        (∃ rest, s = '@' :: (name.toList ++ rest)) → '$' ∉ name.toList →
        (∃ k, kindOf aliases name = .ok (some k)) →
        annotationAt aliases before (s ++ following) =
          (evaluate aliases s).map fun v => some (v, s.length) := by
  constructor
  · obtain ⟨front, inner, rfl, hfront, hinner⟩ := exists_opening hs.spelled hend
    have hplace : (front ++ '(' :: (inner ++ [')'])).idxOf '(' = front.length := by
      rw [List.idxOf_append_of_notMem hfront, List.idxOf_cons_self, Nat.add_zero]
    have hbehind : (front ++ '(' :: (inner ++ [')']) ++ following).drop (front.length + 1) =
        inner ++ ')' :: following := by
      rw [List.append_assoc, List.drop_append, List.drop_of_length_le (Nat.le_succ _)]
      simp
    rw [closedAt?, hplace, hbehind, hinner.throughClosing? following, Option.map_some]
    simp only [List.length_append, List.length_cons, List.length_nil]
    congr 1
    omega
  · intro aliases before hbefore hopens hplain hknown
    let sentence : Sentence aliases :=
      { text := s
        derivation := .applied name arguments
        tokenised := hs
        opens := hopens
        plain := hplain
        ends := by
          intro c hc
          rw [hend] at hc
          cases hc
          rfl
        known := hknown }
    exact annotationAt_sentence sentence hbefore nofun

/-- A sentence with quotes and parentheses in its strings. -/
def quotedParentheses : List Char := "@SWG\\Model( id = \")\"\"(\", \"\"\"\")".toList

/-- Its argument list. -/
def quotedArguments : Derivation (.list .arguments) :=
  .filled (.cons (.assignment "id" (.leaf .string "\")\"\"(\""))
    (.single (.unlabelled (.leaf .string "\"\"\"\"")))) false

theorem closed_at_end_of_quotedParentheses :
    Tokenised quotedParentheses (Derivation.applied "SWG\\Model" quotedArguments).words ∧
    quotedParentheses.getLast? = some ')' ∧
    closedAt? (quotedParentheses ++ "\")) (".toList) (quotedParentheses.idxOf '(') = some 30 ∧
    annotationAt Imports.builtin.entries none (quotedParentheses ++ "\")) (".toList) =
      (evaluate Imports.builtin.entries quotedParentheses).map fun v => some (v, 30) := by
  have hs : Tokenised quotedParentheses
      (Derivation.applied "SWG\\Model" quotedArguments).words :=
    (tokens_eq_iff _ _).mp (by decide +kernel)
  have hend : quotedParentheses.getLast? = some ')' := by decide +kernel
  obtain ⟨hclosed, hcut⟩ :=
    closed_at_end_of_sentence "SWG\\Model" quotedArguments hs hend "\")) (".toList
  have hlength : quotedParentheses.length = 30 := by decide +kernel
  rw [hlength] at hclosed hcut
  exact ⟨hs, hend, hclosed, hcut _ _ rfl ⟨"( id = \")\"\"(\", \"\"\"\")".toList, by decide +kernel⟩
    (by decide +kernel) ⟨.model, kindOf_written .model⟩⟩

end Marginalia.DocComment

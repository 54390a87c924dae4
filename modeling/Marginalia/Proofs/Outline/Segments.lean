import Mathlib.Data.List.TakeWhile
import Marginalia.Proofs.Outline.Comments

/-!
# Doc-comments cut a source into segments

Whatever the pass is reading when it meets a doc-comment, half a name, an import, a group or the
header of a declaration, it is over before the comment, exactly as it would be at the end of the
source. So a source falls into segments that begin with their doc-comments, and one segment knows of
the others only the scope that the ones before it leave behind.

* `step_ends`: a token that continues nothing (`Token.Ends`) is read as ordinary material, after
  whatever was being read is over;
* `step_comment`: so a doc-comment does what the end of the source does, and is then held;
* `run_append_comment`: so the pass over a source with a doc-comment in it is the pass over what
  stands before, and then the pass over the rest from the scope that is left;
* `comments_cut_the_source`: what is let go of a comment is decided by that scope and by the tokens
  up to the next comment (`untilComment`). The pass with a cursor is cut in the same way:
  none of its readers looks beyond a comment.
-/

namespace Marginalia.Php

/-! ## 1. Tokens that end what is being read -/

/-- **A token that continues nothing**: no name, no import and no declaration goes on with it. -/
structure Token.Ends (t : Token) : Prop where
  sign : ∀ s ∈ ["\\", "&", "\x7b", "\x7d", ","], t.isPunct s = false
  word : ∀ k ∈ [TokenKind.ident, .kwExtends, .kwStatic, .varName, .kwFunction, .kwAs], t.kind ≠ k
  modifier : isModifier t = false
  material : isTypeMaterial t = false

/-- What is left when something that is being read ends: the comment that is still held, and the one
    that is let go, as a class takes it or a function turns out to be a closure. -/
def Walk.ended (path : String) (w : Walk) : Option Held × List Attachment :=
  match w.mode with
  | .typeNamed h | .parentName h _ => (none, [h.atType path w.finalScope])
  | .methodName h _ => (none, [h.unattached path w.finalScope])
  | mode => (mode.held, [])

section Ends

variable {t : Token} (ht : t.Ends)

include ht

theorem Token.Ends.continueName? (parts : List String) : continueName? parts t = none := by
  have hslash := ht.sign "\\" (by decide)
  have hident := ht.word .ident (by decide)
  simp only [Php.continueName?, hslash, hident, decide_false, Bool.false_and, Bool.false_eq_true,
    if_false]

/-- An import that has been read so far counts. -/
theorem Token.Ends.stepImportTail (path : String) (scope : Scope) (held : Option Held)
    (group target short : String) :
    stepImportTail path scope held group target short t =
      scan path (scope.addImport short target) held t := by
  have hopen := ht.sign "\x7b" (by decide)
  have hclose := ht.sign "\x7d" (by decide)
  have hcomma := ht.sign "," (by decide)
  simp only [Php.stepImportTail, hopen, hclose, hcomma, Bool.false_eq_true, if_false]

/-- **Whatever is being read is over before such a token**, with the scope that the end of the
    source would leave. -/
theorem step_ends (path : String) (w : Walk) :
    w.step path t = (scan path w.finalScope (w.ended path).1 t).behind (w.ended path).2 := by
  obtain ⟨scope, mode⟩ := w
  cases mode with
  | scanning held => rfl
  | typeHeader held => exact if_neg (ht.word .ident (by decide))
  | typeNamed h => exact if_neg (ht.word .kwExtends (by decide))
  | parentName h parts =>
      simp only [Walk.step, ht.continueName?]
      rfl
  | member h isStatic =>
      simp only [Walk.step, if_neg (ht.word .kwStatic (by decide)),
        if_neg (ht.word .varName (by decide)), if_neg (ht.word .kwFunction (by decide)),
        ht.modifier, ht.material, Bool.or_false, Bool.false_eq_true, if_false]
      rfl
  | staticMember h =>
      have hvisible : t.kind.isVisibility = false := by
        have hmodifier := ht.modifier
        simp only [isModifier, Bool.or_eq_false_iff] at hmodifier
        exact hmodifier.1.1.1
      simp only [Walk.step, if_neg (ht.word .varName (by decide)), hvisible,
        if_neg (ht.word .kwFunction (by decide)), ht.material, Bool.false_eq_true, if_false]
      rfl
  | methodName h byReference =>
      have hamp := ht.sign "&" (by decide)
      simp only [Walk.step, hamp, Bool.and_false, Bool.false_eq_true, if_false,
        if_neg (ht.word .ident (by decide))]
      rfl
  | namespaceName held parts =>
      simp only [Walk.step, ht.continueName?]
      rfl
  | importName held group parts =>
      simp only [Walk.step, ht.continueName?, endImportName, if_neg (ht.word .kwAs (by decide)),
        ht.stepImportTail, Walk.finalScope]
      split
      · rfl
      · rfl
  | importAlias held group target => exact if_neg (ht.word .ident (by decide))
  | importTail held group target short => exact ht.stepImportTail path scope held group target short
  | groupEnd held =>
      have hcomma := ht.sign "," (by decide)
      simp only [Walk.step, hcomma, Bool.false_eq_true, if_false]
      rfl

end Ends

/-- The end of the source ends what is being read, and lets go what is still held. -/
theorem finish_ended (path : String) (w : Walk) :
    (w.finish path).2 = (w.ended path).2 ++ flush path w.finalScope (w.ended path).1 := by
  obtain ⟨scope, mode⟩ := w
  cases mode <;> rfl

section Comment

variable {c : Token} (hc : c.kind = .docComment)

include hc

theorem ends_of_comment : c.Ends where
  sign s _ := by simp only [Token.isPunct, hc, reduceCtorEq, decide_false, Bool.false_and]
  word k hk h := by
    rw [← h, hc] at hk
    exact absurd hk (by decide)
  modifier := by simp [isModifier, hc, TokenKind.isVisibility]
  material := by simp [isTypeMaterial, hc]

theorem scan_comment (path : String) (scope : Scope) (held : Option Held) :
    scan path scope held c =
      (⟨scope, .scanning (some ⟨c.text, c.line⟩)⟩, flush path scope held) := by
  simp only [scan, hc]

/-- **A doc-comment does what the end of the source does**, and is then held. -/
theorem step_comment (path : String) (w : Walk) :
    w.step path c =
      (⟨w.finalScope, .scanning (some ⟨c.text, c.line⟩)⟩, (w.finish path).2) := by
  rw [step_ends (ends_of_comment hc), scan_comment hc, finish_ended]
  rfl

end Comment

/-! ## 2. The pass is cut at a comment -/

/-- The pass over tokens from a scope, with nothing held. -/
def runFrom (path : String) (scope : Scope) (ts : List Token) : Outcome :=
  Walk.run path ⟨scope, .scanning none⟩ ts

theorem Outcome.behind_behind (first second : List Attachment) (o : Outcome) :
    (o.behind second).behind first = o.behind (first ++ second) := by
  show (o.1, first ++ (second ++ o.2)) = (o.1, (first ++ second) ++ o.2)
  rw [List.append_assoc]

/-- A comment that is read in any state is read as it would be from the scope that the end of the
    source leaves in this state, once the comments that the end lets go are gone. -/
theorem run_comment (path : String) (w : Walk) {c : Token} (hc : c.kind = .docComment)
    (ts : List Token) :
    w.run path (c :: ts) = (runFrom path w.finalScope (c :: ts)).behind (w.finish path).2 := by
  have hhere : Walk.step path ⟨w.finalScope, .scanning none⟩ c =
      (⟨w.finalScope, .scanning (some ⟨c.text, c.line⟩)⟩, []) := scan_comment hc path _ none
  rw [runFrom, Walk.run_cons, Walk.run_cons, step_comment hc, hhere, Outcome.behind_nil]

/-- **The pass is cut at a comment**: it is the pass over what stands before, to its end, and then
    the pass over the rest from the scope that is left. -/
theorem run_append_comment (path : String) (w : Walk) (pre : List Token) {c : Token}
    (hc : c.kind = .docComment) (post : List Token) :
    w.run path (pre ++ c :: post) =
      (runFrom path (w.run path pre).1.scope (c :: post)).behind (w.run path pre).2 := by
  induction pre generalizing w with
  | nil => exact run_comment path w hc post
  | cons t pre ih =>
      rw [List.cons_append, Walk.run_cons, ih, Outcome.behind_behind]
      rfl

/-! ## 3. Segments -/

/-- The tokens up to the next comment. -/
def untilComment (ts : List Token) : List Token := ts.takeWhile (·.kind ≠ .docComment)

/-- The tokens from the next comment on. -/
def fromComment (ts : List Token) : List Token := ts.dropWhile (·.kind ≠ .docComment)

theorem untilComment_append_fromComment (ts : List Token) :
    untilComment ts ++ fromComment ts = ts := List.takeWhile_append_dropWhile

theorem docComments_untilComment (ts : List Token) : docComments (untilComment ts) = [] := by
  refine List.filterMap_eq_nil_iff.mpr fun t ht => if_neg ?_
  have hkind := List.mem_takeWhile_imp ht
  exact of_decide_eq_true hkind

theorem kind_of_fromComment {ts post : List Token} {c : Token} (h : fromComment ts = c :: post) :
    c.kind = .docComment := by
  have hhead := List.head?_dropWhile_not (fun t : Token => decide (t.kind ≠ .docComment)) ts
  unfold fromComment at h
  rw [h] at hhead
  exact Decidable.of_not_not (of_decide_eq_false hhead)

/-- The pass over any tokens, in any state: up to the next comment, and then from there with the
    scope that is left. -/
theorem run_untilComment (path : String) (w : Walk) (ts : List Token) :
    w.run path ts =
      (runFrom path (w.run path (untilComment ts)).1.scope (fromComment ts)).behind
        (w.run path (untilComment ts)).2 := by
  have happend := untilComment_append_fromComment ts
  cases hrest : fromComment ts with
  | nil =>
      rw [hrest, List.append_nil] at happend
      rw [happend]
      refine Prod.ext ?_ (List.append_nil _).symm
      exact congrArg (Walk.mk (w.run path ts).1.scope) (mode_run path w ts)
  | cons c post =>
      rw [hrest] at happend
      rw [← run_append_comment path w (untilComment ts) (kind_of_fromComment hrest) post, happend]

/-- A segment, from its first token on, and then what stands behind it. -/
theorem runFrom_segment (path : String) (scope : Scope) (c : Token) (ts : List Token) :
    runFrom path scope (c :: ts) =
      (runFrom path (runFrom path scope (c :: untilComment ts)).1.scope (fromComment ts)).behind
        (runFrom path scope (c :: untilComment ts)).2 := by
  unfold runFrom
  rw [Walk.run_cons, run_untilComment, Outcome.behind_behind]
  rfl

/-- A comment and the tokens up to the next one let go the comment and nothing else. -/
theorem run_segment (path : String) (scope : Scope) {c : Token} (hc : c.kind = .docComment)
    (ts : List Token) :
    ∃ a, (runFrom path scope (c :: untilComment ts)).2 = [a] ∧ a.comment = c.text := by
  have hall : (runFrom path scope (c :: untilComment ts)).2.map (·.comment) = [c.text] := by
    refine (comments_run path ⟨scope, .scanning none⟩ (c :: untilComment ts)).trans ?_
    show docComments (c :: untilComment ts) = [c.text]
    have hself : c.comment? = some c.text := if_pos hc
    unfold docComments
    rw [List.filterMap_cons, hself]
    exact congrArg (c.text :: ·) (docComments_untilComment ts)
  obtain ⟨a, ha, hcomment⟩ := List.map_eq_singleton_iff.mp hall
  exact ⟨a, ha, hcomment⟩

/-! ## 4. The main statement -/

/-- The pass with a cursor from a scope, with nothing held: it does not stop short, and does what
    `runFrom` does. -/
theorem Pass.run_from (path : String) (scope : Scope) (isStatic : Bool) (ts : List Token) :
    ∃ last, Pass.run path ⟨scope, .scanning, none, isStatic⟩ ts =
      .ok (last, (runFrom path scope ts).2) ∧ last.scope = (runFrom path scope ts).1.scope := by
  obtain ⟨s, hs⟩ := Pass.run_agrees path (.scanning scope none isStatic) ts
  exact ⟨_, hs, rfl⟩

/-- **Doc-comments cut a source into independent segments.** The pass over a source with a comment
    in it lets go the comments of what stands before, and then, from the scope that is left there,
    those of the rest. What it lets go of this one comment is decided by that scope and by the
    tokens up to the next comment. The pass with a cursor is cut at the same place, whichever way
    the flag for static members is set when it starts anew. -/
theorem comments_cut_the_source (path : String) (scope : Scope) (pre post : List Token)
    (c : Token) (hc : c.kind = .docComment) :
    runFrom path scope (pre ++ c :: post) =
        (runFrom path (runFrom path scope pre).1.scope (c :: post)).behind
          (runFrom path scope pre).2 ∧
      (∃ a next,
        runFrom path (runFrom path scope pre).1.scope (c :: untilComment post) = (next, [a]) ∧
        a.comment = c.text ∧
        (runFrom path scope (pre ++ c :: post)).2 = (runFrom path scope pre).2 ++
          a :: (runFrom path next.scope (fromComment post)).2) ∧
      ∀ isStatic anew, ∃ left first last second whole,
        Pass.run path ⟨scope, .scanning, none, isStatic⟩ pre = .ok (left, first) ∧
        Pass.run path ⟨left.scope, .scanning, none, anew⟩ (c :: post) = .ok (last, second) ∧
        Pass.run path ⟨scope, .scanning, none, isStatic⟩ (pre ++ c :: post) =
          .ok (whole, first ++ second) ∧
        whole.scope = last.scope := by
  have hcut : runFrom path scope (pre ++ c :: post) =
      (runFrom path (runFrom path scope pre).1.scope (c :: post)).behind
        (runFrom path scope pre).2 := run_append_comment path _ pre hc post
  refine ⟨hcut, ?_, fun isStatic anew => ?_⟩
  · obtain ⟨a, ha, hcomment⟩ := run_segment path (runFrom path scope pre).1.scope hc post
    refine ⟨a, _, Prod.ext rfl ha, hcomment, ?_⟩
    rw [hcut, runFrom_segment path (runFrom path scope pre).1.scope c post]
    show _ ++ ((runFrom path _ (c :: untilComment post)).2 ++ _) = _
    rw [ha]
    rfl
  · obtain ⟨left, hpre, hleft⟩ := Pass.run_from path scope isStatic pre
    obtain ⟨last, hpost, hlast⟩ := Pass.run_from path left.scope anew (c :: post)
    obtain ⟨whole, hwhole, hscope⟩ := Pass.run_from path scope isStatic (pre ++ c :: post)
    refine ⟨left, _, last, _, whole, hpre, hpost, ?_, ?_⟩
    · rw [hwhole, hcut, hleft]
      rfl
    · rw [hscope, hcut, hlast, hleft]
      rfl

/-- A comment that breaks into an import statement, behind one that is still held. -/
theorem comments_cut_half_an_import :
    (⟨.docComment, "/** pet */", 3⟩ : Token).kind = .docComment ∧
      runFrom "pets.php" .initial
          ([⟨.docComment, "/** file */", 1⟩, ⟨.kwUse, "use", 2⟩,
              ⟨.ident, "Swagger\\Annotations", 2⟩] ++
            ⟨.docComment, "/** pet */", 3⟩ :: [⟨.kwClass, "class", 4⟩, ⟨.ident, "Pet", 4⟩]) =
        (runFrom "pets.php"
            (runFrom "pets.php" .initial [⟨.docComment, "/** file */", 1⟩, ⟨.kwUse, "use", 2⟩,
              ⟨.ident, "Swagger\\Annotations", 2⟩]).1.scope
            [⟨.docComment, "/** pet */", 3⟩, ⟨.kwClass, "class", 4⟩, ⟨.ident, "Pet", 4⟩]).behind
          (runFrom "pets.php" .initial [⟨.docComment, "/** file */", 1⟩, ⟨.kwUse, "use", 2⟩,
            ⟨.ident, "Swagger\\Annotations", 2⟩]).2 :=
  ⟨rfl, (comments_cut_the_source "pets.php" .initial _ _ _ rfl).1⟩

end Marginalia.Php

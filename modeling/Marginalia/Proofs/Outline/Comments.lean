import Marginalia.Proofs.Outline.Lookahead

/-!
# No comment is lost

Whatever the tokens of a source are, each doc-comment among them is let go exactly once, and they
are let go in the order of the tokens.

* `comments_step`: a token neither loses nor makes up a comment. What is let go, followed by what is
  held afterwards, is what was held before, followed by the token itself if it is a comment;
* `comments_run`: so the whole pass lets go what was held at its start and then all comments of
  the source;
* `every_comment_let_go_once`: the same of a pass that starts with nothing held, and of the pass
  with a cursor, which never asks for a comment that is not held.
-/

namespace Marginalia.Php

/-- The text of a token that is a doc-comment. -/
def Token.comment? (t : Token) : Option String :=
  if t.kind = .docComment then some t.text else none

/-- The texts of the doc-comments among tokens, in order. -/
def docComments (ts : List Token) : List String := ts.filterMap Token.comment?

/-- The text of the comment that a mode holds, as a list. -/
def Mode.heldText (m : Mode) : List String := (m.held.map (·.text)).toList

/-- The texts of comments that are let go. -/
def commentsOf (released : List Attachment) : List String := released.map (·.comment)

/-- What an outcome has of comments: those it lets go and the one it holds. -/
def Outcome.comments (o : Outcome) : List String := commentsOf o.2 ++ o.1.mode.heldText

theorem commentsOf_flush (path : String) (scope : Scope) (held : Option Held) :
    commentsOf (flush path scope held) = (held.map (·.text)).toList := by
  cases held <;> rfl

theorem comments_after (a : Attachment) (o : Outcome) :
    Outcome.comments (.after a o) = a.comment :: o.comments := rfl

/-! ## 1. Tokens that are no comments -/

theorem comment?_of_kind {t : Token} {k : TokenKind} (h : t.kind = k) (hk : k ≠ .docComment) :
    t.comment? = none := if_neg (fun e => hk (h ▸ e))

theorem kind_of_isPunct {t : Token} {s : String} (h : t.isPunct s = true) : t.kind = .punct := by
  simp only [Token.isPunct, Bool.and_eq_true, decide_eq_true_eq] at h
  exact h.1

theorem comment?_of_isPunct {t : Token} {s : String} (h : t.isPunct s = true) :
    t.comment? = none := comment?_of_kind (kind_of_isPunct h) (by decide)

theorem comment?_of_continueName? {parts more : List String} {t : Token}
    (h : continueName? parts t = some more) : t.comment? = none := by
  unfold continueName? at h
  split at h
  · rename_i hp
    exact comment?_of_isPunct hp
  · split at h
    · rename_i hi
      simp only [Bool.and_eq_true, decide_eq_true_eq] at hi
      exact comment?_of_kind hi.1 (by decide)
    · cases h

theorem comment?_of_isVisibility {t : Token} (h : t.kind.isVisibility = true) :
    t.comment? = none := by
  refine if_neg fun e => ?_
  rw [e] at h
  cases h

theorem comment?_of_isTypeMaterial {t : Token} (h : isTypeMaterial t = true) :
    t.comment? = none := by
  simp only [isTypeMaterial, Bool.or_eq_true, Bool.and_eq_true, decide_eq_true_eq] at h
  rcases h with h | h
  · exact comment?_of_kind h (by decide)
  · exact comment?_of_kind h.1 (by decide)

theorem comment?_of_isModifier {t : Token} (h : isModifier t = true) : t.comment? = none := by
  simp only [isModifier, Bool.or_eq_true, Bool.and_eq_true, decide_eq_true_eq] at h
  rcases h with ((h | h) | h) | h
  · exact comment?_of_isVisibility h
  · exact comment?_of_kind h (by decide)
  · exact comment?_of_kind h (by decide)
  · exact comment?_of_kind h.1 (by decide)

/-! ## 2. One token -/

/-- Ordinary material lets the held comment go, keeps it, or takes a new one in its place. -/
theorem comments_scan (path : String) (scope : Scope) (held : Option Held) (t : Token) :
    (scan path scope held t).comments = (held.map (·.text)).toList ++ t.comment?.toList := by
  unfold scan Token.comment?
  cases hk : t.kind with
  | docComment => cases held <;> rfl
  | _ => cases held <;> rfl

theorem comments_stepImportTail (path : String) (scope : Scope) (held : Option Held)
    (group target short : String) (t : Token) :
    (stepImportTail path scope held group target short t).comments =
      (held.map (·.text)).toList ++ t.comment?.toList := by
  unfold stepImportTail
  dsimp only
  split
  · rename_i hp
    rw [comment?_of_isPunct hp, Option.toList_none, List.append_nil]
    rfl
  · split
    · rename_i hp
      rw [comment?_of_isPunct hp, Option.toList_none, List.append_nil]
      rfl
    · split
      · rename_i hp
        rw [comment?_of_isPunct hp, Option.toList_none, List.append_nil]
        rfl
      · exact comments_scan path _ held t

theorem comments_endImportName (path : String) (scope : Scope) (held : Option Held)
    (group : String) (parts : List String) (t : Token) :
    (endImportName path scope held group parts t).comments =
      (held.map (·.text)).toList ++ t.comment?.toList := by
  unfold endImportName
  dsimp only
  split
  · exact comments_scan path scope held t
  · split
    · rename_i has
      rw [comment?_of_kind has (by decide), Option.toList_none, List.append_nil]
      rfl
    · exact comments_stepImportTail path scope held group _ _ t

/-- **One token keeps the comments**: what it lets go and what is held behind it are what was held
    before it, and the token itself if it is a comment. -/
theorem comments_step (path : String) (w : Walk) (t : Token) :
    (w.step path t).comments = w.mode.heldText ++ t.comment?.toList := by
  -- a token that a mode takes in is no comment, and any other is read by `scan`
  have taken : ∀ {o : Outcome} {before : List String}, t.comment? = none → o.comments = before →
      o.comments = before ++ t.comment?.toList := by
    intro o before ht ho
    rw [ho, ht, Option.toList_none, List.append_nil]
  obtain ⟨scope, mode⟩ := w
  cases mode with
  | scanning held => exact comments_scan path scope held t
  | typeHeader held =>
      simp only [Walk.step]
      split
      · rename_i ht
        cases held <;> exact taken (comment?_of_kind ht (by decide)) rfl
      · exact comments_scan path scope held t
  | typeNamed h =>
      simp only [Walk.step]
      split
      · rename_i ht
        exact taken (comment?_of_kind ht (by decide)) rfl
      · rw [comments_after, comments_scan]
        rfl
  | parentName h parts =>
      simp only [Walk.step]
      split
      · rename_i hc
        exact taken (comment?_of_continueName? hc) rfl
      · rw [comments_after, comments_scan]
        rfl
  | member h isStatic =>
      simp only [Walk.step]
      split
      · rename_i ht
        exact taken (comment?_of_kind ht (by decide)) rfl
      split
      · rename_i ht
        exact taken (comment?_of_kind ht (by decide)) rfl
      split
      · rename_i ht
        exact taken (comment?_of_kind ht (by decide)) rfl
      split
      · rename_i ht
        rcases Bool.or_eq_true_iff.mp ht with hm | hm
        · exact taken (comment?_of_isModifier hm) rfl
        · exact taken (comment?_of_isTypeMaterial hm) rfl
      · exact comments_scan path scope (some h) t
  | staticMember h =>
      simp only [Walk.step]
      split
      · rename_i ht
        exact taken (comment?_of_kind ht (by decide)) rfl
      split
      · rename_i ht
        exact taken (comment?_of_isVisibility ht) rfl
      split
      · rename_i ht
        exact taken (comment?_of_kind ht (by decide)) rfl
      split
      · rename_i ht
        exact taken (comment?_of_isTypeMaterial ht) rfl
      · exact comments_scan path scope (some h) t
  | methodName h byReference =>
      simp only [Walk.step]
      split
      · rename_i ht
        exact taken (comment?_of_isPunct (Bool.and_eq_true_iff.mp ht).2) rfl
      split
      · rename_i ht
        exact taken (comment?_of_kind ht (by decide)) rfl
      · rw [comments_after, comments_scan]
        rfl
  | namespaceName held parts =>
      simp only [Walk.step]
      split
      · rename_i hc
        exact taken (comment?_of_continueName? hc) rfl
      · exact comments_scan path _ held t
  | importName held group parts =>
      simp only [Walk.step]
      split
      · rename_i hc
        exact taken (comment?_of_continueName? hc) rfl
      · exact comments_endImportName path scope held group parts t
  | importAlias held group target =>
      simp only [Walk.step]
      split
      · rename_i ht
        exact taken (comment?_of_kind ht (by decide)) rfl
      · exact comments_scan path scope held t
  | importTail held group target short =>
      exact comments_stepImportTail path scope held group target short t
  | groupEnd held =>
      simp only [Walk.step]
      split
      · rename_i ht
        exact taken (comment?_of_isPunct ht) rfl
      · exact comments_scan path scope held t

/-! ## 3. The whole source -/

/-- The end of the source lets go what is held. -/
theorem commentsOf_finish (path : String) (w : Walk) :
    commentsOf (w.finish path).2 = w.mode.heldText := by
  obtain ⟨scope, mode⟩ := w
  cases mode with
  | typeNamed | parentName | member | staticMember | methodName => rfl
  | _ => exact commentsOf_flush path _ _

theorem mode_run (path : String) (w : Walk) (ts : List Token) :
    (w.run path ts).1.mode = .scanning none := by
  induction ts generalizing w with
  | nil => rfl
  | cons t ts ih => exact ih (w.step path t).1

/-- **The pass lets go what was held at its start, and then every comment of the source.** -/
theorem comments_run (path : String) (w : Walk) (ts : List Token) :
    commentsOf (w.run path ts).2 = w.mode.heldText ++ docComments ts := by
  induction ts generalizing w with
  | nil =>
      rw [docComments, List.filterMap_nil, List.append_nil]
      exact commentsOf_finish path w
  | cons t ts ih =>
      have hstep := comments_step path w t
      have hdocs : docComments (t :: ts) = t.comment?.toList ++ docComments ts := by
        unfold docComments
        rw [List.filterMap_cons]
        cases t.comment? <;> rfl
      calc commentsOf (w.run path (t :: ts)).2
          = commentsOf (w.step path t).2 ++ commentsOf ((w.step path t).1.run path ts).2 :=
            List.map_append
        _ = (w.step path t).comments ++ docComments ts := by
            rw [ih, ← List.append_assoc]
            rfl
        _ = w.mode.heldText ++ docComments (t :: ts) := by
            rw [hstep, hdocs, List.append_assoc]

/-- **Every comment is let go exactly once, in the order of the tokens**, whatever the tokens are
    and whatever scope the pass starts in; at the end nothing is held and the pass is scanning.
    The pass with a cursor lets the same comments go, and never asks for one that is not held. -/
theorem every_comment_let_go_once (path : String) (scope : Scope) (isStatic : Bool)
    (ts : List Token) :
    (Walk.run path ⟨scope, .scanning none⟩ ts).2.map (·.comment) = docComments ts ∧
    (Walk.run path ⟨scope, .scanning none⟩ ts).1.mode = .scanning none ∧
    ∃ last, Pass.run path ⟨scope, .scanning, none, isStatic⟩ ts =
        .ok (last, (Walk.run path ⟨scope, .scanning none⟩ ts).2) ∧
      last.scope = (Walk.run path ⟨scope, .scanning none⟩ ts).1.scope ∧
      last.phase = .scanning ∧ last.held = none := by
  refine ⟨comments_run path ⟨scope, .scanning none⟩ ts, mode_run path _ ts, ?_⟩
  obtain ⟨s, hs⟩ := Pass.run_agrees path (.scanning scope none isStatic) ts
  exact ⟨_, hs, rfl, rfl, rfl⟩

end Marginalia.Php

import Marginalia.Proofs.Outline.Segments

/-!
# Which namespace is in force

The word `namespace` declares the namespace of what follows, if a name and a sign stand behind it;
it also begins a relative name, with a separator behind it. The pass does not tell the two apart:

* `Pass.Reaches`: the states that the pass with a cursor goes through, with the tokens that it has
  read by then;
* `step_word`, `keeps_step`: a step changes the namespace if and only if it reads the word, and the
  readers never skip one;
* `Reaches.namespaceName`: so in every state the name behind the last word is in force, whatever the
  word was there for (`spokenName`).

Main statement: `namespace_behind_last_word`. As long as every word declares a namespace
(`declaredName?`), the one that was declared last is in force. A relative name puts itself in its
place.
-/

namespace Marginalia.Php

/-! ## 1. States on the way -/

/-- **The states that the pass goes through** on its way over tokens: with the tokens that it has
    read and those behind the cursor. -/
inductive Pass.Reaches (path : String) (start : Pass) (ts : List Token) :
    Pass → (read rest : List Token) → Prop
  | start : Reaches path start ts start [] ts
  | step {p : Pass} {a : Advance} {t : Token} {read behind passed : List Token}
      (before : Reaches path start ts p read (t :: behind))
      (hstep : p.step path t behind = .ok a) (hpassed : behind = passed ++ a.rest) :
      Reaches path start ts a.pass (read ++ t :: passed) a.rest

theorem Pass.Reaches.read_append_rest {path : String} {start p : Pass} {ts read rest : List Token}
    (h : Reaches path start ts p read rest) : read ++ rest = ts := by
  induction h with
  | start => rfl
  | step before hstep hpassed ih =>
      rw [← ih, hpassed, List.append_assoc, List.cons_append]

/-! ## 2. Names behind the word -/

/-- The name behind the word, as far as it goes. -/
def spokenName (behind : List Token) : String := nameOf (readName [] behind).1

/-- The namespace that the word declares: behind it stands a name that is not rooted, or none, and
    then the sign that ends the declaration. -/
def declaredName? (behind : List Token) : Option String :=
  if (spokenName behind).toList.head? ≠ some separator ∧
      (readName [] behind).2.head?.any (fun sign => sign.isPunct ";" || sign.isPunct "\x7b") then
    some (spokenName behind)
  else none

/-- What the last of the words that have been read says, among those that say something. -/
def lastBehind (gives : List Token → Option String) : (read rest : List Token) → Option String
  | [], _ => none
  | t :: ts, rest =>
    (lastBehind gives ts rest).or (if t.kind = .kwNamespace then gives (ts ++ rest) else none)

section LastBehind

variable {gives : List Token → Option String}

theorem lastBehind_append (xs ys rest : List Token) :
    lastBehind gives (xs ++ ys) rest =
      (lastBehind gives ys rest).or (lastBehind gives xs (ys ++ rest)) := by
  induction xs with
  | nil => exact Option.or_none.symm
  | cons t xs ih =>
      rw [List.cons_append, lastBehind, ih, lastBehind, Option.or_assoc, List.append_assoc]

theorem lastBehind_of_wordless {xs : List Token} (h : ∀ t ∈ xs, t.kind ≠ .kwNamespace)
    (rest : List Token) : lastBehind gives xs rest = none := by
  induction xs with
  | nil => rfl
  | cons t xs ih =>
      obtain ⟨ht, hxs⟩ := List.forall_mem_cons.mp h
      rw [lastBehind, ih hxs, if_neg ht, Option.or_none]

/-- The last word decides, if it says something. -/
theorem lastBehind_of_last {word : Token} (hword : word.kind = .kwNamespace) {back : List Token}
    (hback : ∀ t ∈ back, t.kind ≠ .kwNamespace) {rest : List Token} {name : String}
    (hgives : gives (back ++ rest) = some name) (front : List Token) :
    lastBehind gives (front ++ word :: back) rest = some name := by
  rw [lastBehind_append, lastBehind, lastBehind_of_wordless hback, if_pos hword, hgives,
    Option.none_or, Option.some_or]

/-- Two ways of reading words agree if they agree on the words that have been read. -/
theorem lastBehind_congr {gives' : List Token → Option String} {read rest : List Token}
    (h : ∀ front word back, read = front ++ word :: back → word.kind = .kwNamespace →
      gives (back ++ rest) = gives' (back ++ rest)) :
    lastBehind gives read rest = lastBehind gives' read rest := by
  induction read with
  | nil => rfl
  | cons t read ih =>
      have hmore := ih fun front word back hread => h (t :: front) word back (by rw [hread]; rfl)
      rw [lastBehind, lastBehind, hmore]
      by_cases ht : t.kind = .kwNamespace
      · rw [if_pos ht, if_pos ht, h [] t read rfl ht]
      · rw [if_neg ht, if_neg ht]

/-- What is said was said by one of the words. -/
theorem exists_of_lastBehind {read rest : List Token} {name : String}
    (h : lastBehind gives read rest = some name) : ∃ behind, gives behind = some name := by
  induction read with
  | nil => cases h
  | cons t read ih =>
      rw [lastBehind] at h
      rcases Option.or_eq_some_iff.mp h with hmore | ⟨-, hhere⟩
      · exact ih hmore
      · split at hhere
        · exact ⟨_, hhere⟩
        · cases hhere

end LastBehind

theorem declaredName?_eq_some {behind : List Token} {name : String}
    (h : declaredName? behind = some name) :
    name = spokenName behind ∧ name.toList.head? ≠ some separator := by
  unfold declaredName? at h
  split at h
  · rename_i hdeclares
    cases h
    exact ⟨rfl, hdeclares.1⟩
  · cases h

/-- Reading a name adds to the parts that there are. -/
theorem readName_extends (parts : List String) (ts : List Token) :
    ∃ more, (readName parts ts).1 = parts ++ more := by
  induction ts generalizing parts with
  | nil => exact ⟨[], (List.append_nil parts).symm⟩
  | cons t ts ih =>
      rw [readName]
      cases hc : continueName? parts t with
      | none => exact ⟨[], (List.append_nil parts).symm⟩
      | some next =>
          have hnext : ∃ part, next = parts ++ [part] := by
            unfold continueName? at hc
            split at hc
            · exact ⟨_, (Option.some.inj hc).symm⟩
            split at hc
            · exact ⟨_, (Option.some.inj hc).symm⟩
            · cases hc
          obtain ⟨part, rfl⟩ := hnext
          obtain ⟨more, hmore⟩ := ih (parts ++ [part])
          exact ⟨part :: more, hmore.trans (List.append_assoc parts [part] more)⟩

/-- A relative name is rooted in the word. -/
theorem head_spokenName_of_separator {slash : Token} (hslash : slash.isPunct "\\" = true)
    (ts : List Token) : (spokenName (slash :: ts)).toList.head? = some separator := by
  obtain ⟨more, hmore⟩ := readName_extends ["\\"] ts
  have hread : (readName [] (slash :: ts)).1 = "\\" :: more := by
    rw [readName, continueName?, if_pos hslash]
    exact hmore
  have htext : nameOf ("\\" :: more) = "\\" ++ nameOf more := String.join_cons
  rw [spokenName, hread, htext, String.toList_append]
  rfl

/-! ## 3. One step -/

/-- **The namespace stays**, and no word is skipped on the way from one place to the next. -/
structure Keeps (scope : Scope) (ts : List Token) (after : Scope) (rest : List Token) : Prop where
  name : after.namespaceName = scope.namespaceName
  passed : ∃ passed, ts = passed ++ rest ∧ ∀ t ∈ passed, t.kind ≠ .kwNamespace

namespace Keeps

variable {scope middle after : Scope} {ts us rest : List Token}

theorem here (h : after.namespaceName = scope.namespaceName) (ts : List Token) :
    Keeps scope ts after ts := ⟨h, [], rfl, fun _ ht => absurd ht List.not_mem_nil⟩

theorem trans (h : Keeps scope ts middle us) (h' : Keeps middle us after rest) :
    Keeps scope ts after rest := by
  obtain ⟨xs, rfl, hxs⟩ := h.passed
  obtain ⟨ys, rfl, hys⟩ := h'.passed
  refine ⟨h'.name.trans h.name, xs ++ ys, (List.append_assoc xs ys rest).symm, fun t ht => ?_⟩
  exact (List.mem_append.mp ht).elim (hxs t) (hys t)

/-- Over one more token. -/
theorem skip {t : Token} (ht : t.kind ≠ .kwNamespace) (h : Keeps scope ts after rest) :
    Keeps scope (t :: ts) after rest := by
  obtain ⟨xs, rfl, hxs⟩ := h.passed
  exact ⟨h.name, t :: xs, rfl, List.forall_mem_cons.mpr ⟨ht, hxs⟩⟩

end Keeps

theorem ne_word_of_kind {t : Token} {k : TokenKind} (h : t.kind = k) (hk : k ≠ .kwNamespace) :
    t.kind ≠ .kwNamespace := h ▸ hk

theorem ne_word_of_isPunct {t : Token} {s : String} (h : t.isPunct s = true) :
    t.kind ≠ .kwNamespace := ne_word_of_kind (kind_of_isPunct h) (by decide)

theorem keeps_readName (scope : Scope) (parts : List String) (ts : List Token) :
    Keeps scope ts scope (readName parts ts).2 := by
  induction ts generalizing parts with
  | nil => exact .here rfl []
  | cons t ts ih =>
      rw [readName]
      cases hc : continueName? parts t with
      | none => exact .here rfl (t :: ts)
      | some more =>
          refine .skip ?_ (ih more)
          unfold continueName? at hc
          split at hc
          · rename_i hslash
            exact ne_word_of_isPunct hslash
          split at hc
          · rename_i hident
            simp only [Bool.and_eq_true, decide_eq_true_eq] at hident
            exact ne_word_of_kind hident.1 (by decide)
          · cases hc

theorem keeps_readAlias (scope : Scope) (target : String) (ts : List Token) :
    Keeps scope ts scope (readAlias target ts).2 := by
  unfold readAlias
  split
  · rename_i t ts
    split
    · rename_i hword
      refine .skip (ne_word_of_kind hword (by decide)) ?_
      split
      · rename_i short rest
        split
        · rename_i hident
          exact .skip (ne_word_of_kind hident (by decide)) (.here rfl rest)
        · exact .here rfl (short :: rest)
      · exact .here rfl []
    · exact .here rfl (t :: ts)
  · exact .here rfl []

mutual

/-- The names of an import statement. -/
theorem keeps_readImports (scope : Scope) (group : String) (ts : List Token) :
    Keeps scope ts (readImports scope group ts).1 (readImports scope group ts).2 := by
  have hname := keeps_readName scope [] ts
  have hshort := keeps_readAlias scope (group ++ nameOf (readName [] ts).1) (readName [] ts).2
  have h₁ := readName_length [] ts
  have h₂ := readAlias_length (group ++ nameOf (readName [] ts).1) (readName [] ts).2
  rw [readImports]
  dsimp only
  split
  · exact hname
  · split
    · rename_i s _
      exact (hname.trans hshort).trans (keeps_readImportTail scope group _ s _)
    · exact hname.trans hshort
termination_by 2 * ts.length + 1
decreasing_by omega

theorem keeps_readImportTail (scope : Scope) (group target short : String) (ts : List Token) :
    Keeps scope ts (readImportTail scope group target short ts).1
      (readImportTail scope group target short ts).2 := by
  have hadd : (scope.addImport short target).namespaceName = scope.namespaceName := rfl
  cases ts with
  | nil =>
      rw [readImportTail]
      exact .here hadd []
  | cons t ts =>
      rw [readImportTail]
      split
      · rename_i hopen
        exact .skip (ne_word_of_isPunct hopen) (keeps_readImports scope (groupStart target) ts)
      · have henter : Keeps scope ts (scope.addImport short target) ts := .here hadd ts
        split
        · rename_i hclose
          refine .skip (ne_word_of_isPunct hclose) ?_
          cases ts with
          | nil => exact henter
          | cons u us =>
              dsimp only
              split
              · rename_i hcomma
                exact henter.trans (.skip (ne_word_of_isPunct hcomma) (keeps_readImports _ "" us))
              · exact henter
        · split
          · rename_i hcomma
            exact .skip (ne_word_of_isPunct hcomma) (henter.trans (keeps_readImports _ group ts))
          · exact .here hadd (t :: ts)
termination_by 2 * ts.length
decreasing_by all_goals subst_vars; simp only [List.length_cons]; omega

end

section Steps

variable {path : String} {p : Pass} {t : Token} {ts : List Token} {a : Advance}

theorem keeps_release {attach : Held → Attachment} (h : p.release attach ts = .ok a) :
    Keeps p.scope ts a.pass.scope a.rest := by
  unfold Pass.release at h
  split at h
  · cases h
    exact .here rfl ts
  · cases h

theorem keeps_flush (h : p.flush path ts = .ok a) : Keeps p.scope ts a.pass.scope a.rest := by
  unfold Pass.flush at h
  split at h
  · exact keeps_release h
  · cases h
    exact .here rfl ts

/-- The sign of a reference may be skipped, and then only the name of a function is left. -/
theorem keeps_behindReference {s : Scope} {us rest : List Token}
    (h : (match us with
      | t :: more => if t.isPunct "&" then more else t :: more
      | [] => []) = rest) : Keeps s us s rest := by
  cases us with
  | nil => exact h ▸ .here rfl []
  | cons u more =>
      dsimp only at h
      split at h
      · rename_i hamp
        exact h ▸ .skip (ne_word_of_isPunct hamp) (.here rfl more)
      · exact h ▸ .here rfl (u :: more)

theorem keeps_function (h : p.function path ts = .ok a) :
    Keeps p.scope ts a.pass.scope a.rest := by
  unfold Pass.function at h
  dsimp only at h
  split at h
  · rename_i u more he
    refine (keeps_behindReference he).trans ?_
    split at h
    · rename_i hident
      exact .skip (ne_word_of_kind hident (by decide)) (keeps_release h)
    · exact keeps_flush h
  · rename_i he
    exact (keeps_behindReference he).trans (keeps_flush h)

theorem keeps_typeName (h : p.typeName path ts = .ok a) :
    Keeps p.scope ts a.pass.scope a.rest := by
  unfold Pass.typeName at h
  split at h
  · rename_i u more
    split at h
    · rename_i hext
      have hset : (setParent p.scope (readName [] more).1).namespaceName =
          p.scope.namespaceName := by
        unfold setParent
        split
        · rfl
        · rfl
      refine .skip (ne_word_of_kind hext (by decide)) ?_
      exact (keeps_readName p.scope [] more).trans ((Keeps.here hset _).trans (keeps_release h))
    · exact keeps_release h
  · exact keeps_release h

theorem keeps_scan (ht : t.kind ≠ .kwNamespace) (h : p.scan path t ts = .ok a) :
    Keeps p.scope ts a.pass.scope a.rest := by
  unfold Pass.scan at h
  split at h
  · split at h
    · rename_i b hb
      have hkeeps := keeps_flush hb
      cases h
      exact hkeeps
    · cases h
  · cases h
    exact .here rfl ts
  · cases h
    exact .here rfl ts
  · rename_i hword
    exact absurd hword ht
  · cases h
    exact keeps_readImports p.scope "" ts
  · cases h
    exact .here rfl ts
  · split at h
    · cases h
      exact .here rfl ts
    split at h
    · cases h
      exact .here rfl ts
    split at h
    · cases h
      exact .here rfl ts
    split at h
    · exact keeps_function h
    · exact keeps_flush h

/-- **A step that does not read the word keeps the namespace**, and skips no word. -/
theorem keeps_step (ht : t.kind ≠ .kwNamespace) (h : p.step path t ts = .ok a) :
    Keeps p.scope ts a.pass.scope a.rest := by
  obtain ⟨scope, phase, held, isStatic⟩ := p
  unfold Pass.step at h
  dsimp only at h
  split at h
  · exact keeps_scan ht h
  · split at h
    · split at h
      · cases h
        exact .here (by rfl) ts
      · have hkeeps := keeps_typeName h
        exact (Keeps.here (by rfl) ts).trans hkeeps
    · have hkeeps := keeps_scan ht h
      exact hkeeps
  · split at h
    · cases h
      exact .here rfl ts
    split at h
    · have hkeeps := keeps_release h
      exact hkeeps
    split at h
    · have hkeeps := keeps_function h
      exact hkeeps
    split at h
    · cases h
      exact .here rfl ts
    · have hkeeps := keeps_scan ht h
      exact hkeeps
  · split at h
    · have hkeeps := keeps_release h
      exact hkeeps
    split at h
    · cases h
      exact .here rfl ts
    split at h
    · have hkeeps := keeps_function h
      exact hkeeps
    split at h
    · cases h
      exact .here rfl ts
    · have hkeeps := keeps_scan ht h
      exact hkeeps

/-- **The word puts the name behind it in force**, in whichever phase it is read. -/
theorem step_word (path : String) (p : Pass) (ht : t.kind = .kwNamespace) (ts : List Token) :
    p.step path t ts = .ok
      ⟨{ p with phase := .scanning, scope := { p.scope with namespaceName := spokenName ts } }, [],
        (readName [] ts).2⟩ := by
  have hmodifier : isModifier t = false := by simp [isModifier, ht, TokenKind.isVisibility]
  have hmaterial : isTypeMaterial t = false := by simp [isTypeMaterial, ht]
  obtain ⟨scope, phase, held, isStatic⟩ := p
  cases phase <;>
    simp [Pass.step, Pass.scan, ht, hmodifier, hmaterial, TokenKind.isVisibility, spokenName]

/-- What a step does to the namespace, and what it skips. -/
theorem namespaceName_step (h : p.step path t ts = .ok a) :
    a.pass.scope.namespaceName =
        (if t.kind = .kwNamespace then some (spokenName ts) else none).getD
          p.scope.namespaceName ∧
      ∃ passed, ts = passed ++ a.rest ∧ ∀ u ∈ passed, u.kind ≠ .kwNamespace := by
  by_cases ht : t.kind = .kwNamespace
  · rw [step_word path p ht ts] at h
    cases h
    rw [if_pos ht]
    exact ⟨rfl, (keeps_readName p.scope [] ts).passed⟩
  · have hkeeps := keeps_step ht h
    rw [if_neg ht]
    exact ⟨hkeeps.name, hkeeps.passed⟩

end Steps

/-! ## 4. The way over the tokens -/

section Way

variable {path : String} {start p : Pass} {ts read rest : List Token}

/-- **In every state the name behind the last word is in force.** -/
theorem Pass.Reaches.namespaceName (h : Reaches path start ts p read rest) :
    p.scope.namespaceName =
      (lastBehind (some ∘ spokenName) read rest).getD start.scope.namespaceName := by
  induction h with
  | start => rfl
  | @step p a t read behind passed before hstep hpassed ih =>
      obtain ⟨hname, skipped, hskipped, hwordless⟩ := namespaceName_step hstep
      have hsame : passed = skipped := List.append_cancel_right (hpassed.symm.trans hskipped)
      have hfirst : lastBehind (some ∘ spokenName) (t :: passed) a.rest =
          if t.kind = .kwNamespace then some (spokenName behind) else none := by
        rw [lastBehind, lastBehind_of_wordless (hsame ▸ hwordless), Option.none_or, hpassed]
        rfl
      rw [hname, ih, lastBehind_append, hfirst, List.cons_append, ← hpassed]
      split
      · rfl
      · rfl

/-- From every state that the pass comes to, it comes to the end of the tokens, in the scope that
    the end of the source leaves. -/
theorem Pass.Reaches.exists_end {w : Walk} (h : Reaches path start ts p read rest)
    (hpw : Agrees p w) :
    ∃ last, Reaches path start ts last ts [] ∧ last.scope = (w.run path rest).1.scope := by
  -- the cursor may skip tokens, so the induction is on how many are left
  induction hn : rest.length using Nat.strongRecOn generalizing p w read rest with
  | ind n ih =>
      cases rest with
      | nil =>
          have hread : read = ts := (List.append_nil read).symm.trans h.read_append_rest
          subst hread
          refine ⟨p, h, ?_⟩
          cases hpw <;> rfl
      | cons t behind =>
          obtain ⟨a, next, hstep, hnext, hrun⟩ := leavesFor_step path hpw t behind
          obtain ⟨-, passed, hpassed, -⟩ := namespaceName_step hstep
          have hlt : a.rest.length < n := by
            rw [← hn]
            exact Nat.lt_succ_of_le (Pass.rest_step hstep)
          obtain ⟨last, hlast, hscope⟩ := ih _ hlt (h.step hstep hpassed) hnext rfl
          refine ⟨last, hlast, hscope.trans ?_⟩
          rw [hrun]
          rfl

end Way

/-- The pass over a whole source leaves the name behind its last word in force. -/
theorem namespaceName_runFrom (path : String) (scope : Scope) (ts : List Token) :
    (runFrom path scope ts).1.scope.namespaceName =
      (lastBehind (some ∘ spokenName) ts []).getD scope.namespaceName := by
  have hstart : Pass.Reaches path ⟨scope, .scanning, none, false⟩ ts _ [] ts := .start
  obtain ⟨last, hlast, hscope⟩ := hstart.exists_end (.scanning scope none false)
  unfold runFrom
  rw [← hscope]
  exact hlast.namespaceName

/-! ## 5. The main statement -/

/-- **The namespace in force is the name behind the last word**, in every state that the pass comes
    to and at the end of every source, and the empty one where no word has been read. So the
    namespace that was declared last is in force as long as all words that have been read declare
    one. Where the last word begins a relative name, this name is in force: it is rooted, as no
    namespace that was declared is. -/
theorem namespace_behind_last_word (path : String) (isStatic : Bool) (ts : List Token) :
    (runFrom path .initial ts).1.scope.namespaceName =
        (lastBehind (some ∘ spokenName) ts []).getD "" ∧
      ∀ p read rest, Pass.Reaches path ⟨.initial, .scanning, none, isStatic⟩ ts p read rest →
        read ++ rest = ts ∧
        p.scope.namespaceName = (lastBehind (some ∘ spokenName) read rest).getD "" ∧
        ((∀ front word back, read = front ++ word :: back → word.kind = .kwNamespace →
            (declaredName? (back ++ rest)).isSome = true) →
          p.scope.namespaceName = (lastBehind declaredName? read rest).getD "") ∧
        ∀ front word back slash more, read = front ++ word :: back →
          word.kind = .kwNamespace → (∀ t ∈ back, t.kind ≠ .kwNamespace) →
          back ++ rest = slash :: more → slash.isPunct "\\" = true →
          p.scope.namespaceName.toList.head? = some separator ∧
            p.scope.namespaceName ≠ (lastBehind declaredName? read rest).getD "" := by
  refine ⟨namespaceName_runFrom path .initial ts, fun p read rest h => ?_⟩
  have hname : p.scope.namespaceName = (lastBehind (some ∘ spokenName) read rest).getD "" :=
    h.namespaceName
  refine ⟨h.read_append_rest, hname, fun hall => ?_, ?_⟩
  · rw [hname]
    refine congrArg (Option.getD · "") (lastBehind_congr fun front word back hread hword => ?_)
    obtain ⟨name, hdeclared⟩ := Option.isSome_iff_exists.mp (hall front word back hread hword)
    rw [hdeclared, (declaredName?_eq_some hdeclared).1]
    rfl
  · intro front word back slash more hread hword hback hbehind hslash
    have hlast : lastBehind (some ∘ spokenName) read rest = some (spokenName (slash :: more)) := by
      rw [hread]
      exact lastBehind_of_last hword hback (congrArg (some ∘ spokenName) hbehind) front
    have hrooted := head_spokenName_of_separator hslash more
    rw [hname, hlast]
    refine ⟨hrooted, fun heq => ?_⟩
    rw [Option.getD_some] at heq
    cases hdeclared : lastBehind declaredName? read rest with
    | none =>
        rw [hdeclared] at heq
        rw [heq] at hrooted
        cases hrooted
    | some name =>
        rw [hdeclared, Option.getD_some] at heq
        obtain ⟨behind, hbehind⟩ := exists_of_lastBehind hdeclared
        exact (declaredName?_eq_some hbehind).2 (heq ▸ hrooted)

/-- A relative name in front of a class, in a file with a namespace. -/
def relativeCall : List Token :=
  [⟨.other, "<?php", 1⟩, ⟨.kwNamespace, "namespace", 2⟩, ⟨.ident, "App", 2⟩, ⟨.punct, ";", 2⟩,
    ⟨.kwNamespace, "namespace", 3⟩, ⟨.punct, "\\", 3⟩, ⟨.ident, "boot", 3⟩, ⟨.punct, "(", 3⟩,
    ⟨.punct, ")", 3⟩, ⟨.punct, ";", 3⟩, ⟨.docComment, "/** pet */", 4⟩, ⟨.kwClass, "class", 5⟩,
    ⟨.ident, "Pet", 5⟩]

/-- The class is then called by the relative name. -/
theorem namespace_behind_relativeCall :
    (runFrom "pets.php" .initial relativeCall).1.scope.namespaceName = "\\boot" ∧
      lastBehind declaredName? relativeCall [] = some "App" ∧
      ∃ last,
        Pass.Reaches "pets.php" ⟨.initial, .scanning, none, false⟩ relativeCall last relativeCall
          [] ∧
        last.scope.namespaceName ≠ (lastBehind declaredName? relativeCall []).getD "" := by
  have hstart : Pass.Reaches "pets.php" ⟨.initial, .scanning, none, false⟩ relativeCall _ []
      relativeCall := .start
  obtain ⟨last, hlast, -⟩ := hstart.exists_end (.scanning .initial none false)
  obtain ⟨hrun, hstates⟩ := namespace_behind_last_word "pets.php" false relativeCall
  refine ⟨hrun.trans (by decide +kernel), by decide +kernel, last, hlast, ?_⟩
  obtain ⟨-, -, -, hrelative⟩ := hstates last relativeCall [] hlast
  exact (hrelative (relativeCall.take 4) ⟨.kwNamespace, "namespace", 3⟩ (relativeCall.drop 5)
    ⟨.punct, "\\", 3⟩ (relativeCall.drop 6) rfl rfl (by decide) rfl rfl).2

end Marginalia.Php

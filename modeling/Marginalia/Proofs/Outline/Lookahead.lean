import Marginalia.Php.Outline

/-!
# The pass with a cursor

`Walk.run` reads one token at a time and keeps in its mode whatever it still has to find out. This
module states the pass the other way round, with a cursor into the tokens:

* `Pass`: four phases, a comment that may or may not be held, and whether the member in progress
  is static;
* readers that move the cursor on their own: `readName`, `readImports`, the name behind the word
  that opens a function (`Pass.function`) and the parent of a class (`Pass.typeName`);
* `Pass.release`: letting a comment go asks for a comment that is held. Without one the pass stops
  (`NothingHeld`).

Main statement: `Pass.run_agrees`. From every state in which a member phase holds a comment
(`Agrees`), the pass with the cursor never stops short, and lets go the very comments that
`Walk.run` lets go, in the same order and at the same scope. What a reader does with the rest of
the tokens is what the mode that stands for it does (`run_namespaceName`, `run_importName`, …).
-/

namespace Marginalia.Php

/-! ## 1. The readers -/

/-- Reads a qualified name: its parts, and the tokens behind it. -/
def readName (parts : List String) : List Token → List String × List Token
  | [] => (parts, [])
  | t :: ts => match continueName? parts t with
    | some more => readName more ts
    | none => (parts, t :: ts)

theorem readName_length (parts : List String) (ts : List Token) :
    (readName parts ts).2.length ≤ ts.length := by
  induction ts generalizing parts with
  | nil => exact Nat.le_refl 0
  | cons t ts ih =>
      unfold readName
      cases continueName? parts t with
      | none => exact Nat.le_refl _
      | some more => exact Nat.le_succ_of_le (ih more)

/-- Reads the alias of an imported name: the name behind `as`, or the one that the imported name
    brings along; none if the alias is missing. -/
def readAlias (target : String) : List Token → Option String × List Token
  | t :: ts =>
    if t.kind = .kwAs then
      match ts with
      | short :: rest => if short.kind = .ident then (some short.text, rest) else (none, ts)
      | [] => (none, [])
    else (some (defaultAlias target), t :: ts)
  | [] => (some (defaultAlias target), [])

theorem readAlias_length (target : String) (ts : List Token) :
    (readAlias target ts).2.length ≤ ts.length := by
  unfold readAlias
  split
  · split
    · split
      · split <;> simp only [List.length_cons] <;> omega
      · exact Nat.zero_le _
    · exact Nat.le_refl _
  · exact Nat.le_refl _

mutual

/-- Reads the names of an import statement from the start of one of them: the scope with the
    imports, and the tokens behind them. -/
def readImports (scope : Scope) (group : String) (ts : List Token) : Scope × List Token :=
  let name := readName [] ts
  if nameOf name.1 = "" then (scope, name.2)
  else
    let target := group ++ nameOf name.1
    let short := readAlias target name.2
    match short.1 with
    | some s => readImportTail scope group target s short.2
    | none => (scope, short.2)
termination_by 2 * ts.length + 1
decreasing_by
  have h₁ := readName_length [] ts
  have h₂ := readAlias_length (group ++ nameOf (readName [] ts).1) (readName [] ts).2
  omega

/-- Reads on behind an imported name with its alias. -/
def readImportTail (scope : Scope) (group target short : String) : List Token →
    Scope × List Token
  | [] => (scope.addImport short target, [])
  | t :: ts =>
    if t.isPunct "\x7b" then readImports scope (groupStart target) ts
    else
      let scope := scope.addImport short target
      if t.isPunct "\x7d" then
        match ts with
        | u :: us => if u.isPunct "," then readImports scope "" us else (scope, u :: us)
        | [] => (scope, [])
      else if t.isPunct "," then readImports scope group ts
      else (scope, t :: ts)
termination_by ts => 2 * ts.length
decreasing_by all_goals simp only [List.length_cons]; omega

end

mutual

theorem readImports_length (scope : Scope) (group : String) (ts : List Token) :
    (readImports scope group ts).2.length ≤ ts.length := by
  have h₁ := readName_length [] ts
  have h₂ := readAlias_length (group ++ nameOf (readName [] ts).1) (readName [] ts).2
  rw [readImports]
  dsimp only
  split
  · exact h₁
  · split
    · rename_i s _
      have h₃ := readImportTail_length scope group (group ++ nameOf (readName [] ts).1) s
        (readAlias (group ++ nameOf (readName [] ts).1) (readName [] ts).2).2
      exact Nat.le_trans h₃ (Nat.le_trans h₂ h₁)
    · exact Nat.le_trans h₂ h₁
termination_by 2 * ts.length + 1
decreasing_by omega

theorem readImportTail_length (scope : Scope) (group target short : String) (ts : List Token) :
    (readImportTail scope group target short ts).2.length ≤ ts.length := by
  cases ts with
  | nil => exact Nat.le_of_eq (by rw [readImportTail])
  | cons t ts =>
      rw [readImportTail]
      split
      · exact Nat.le_succ_of_le (readImports_length scope (groupStart target) ts)
      · split
        · cases ts with
          | nil => exact Nat.zero_le _
          | cons u us =>
              dsimp only
              split
              · have h := readImports_length (scope.addImport short target) "" us
                simp only [List.length_cons]
                omega
              · exact Nat.le_succ _
        · split
          · exact Nat.le_succ_of_le (readImports_length (scope.addImport short target) group ts)
          · exact Nat.le_refl _
termination_by 2 * ts.length
decreasing_by all_goals subst_vars; simp only [List.length_cons]; omega

end

/-! ## 2. The pass -/

/-- The phases of the pass. -/
inductive Phase where
  | scanning
  | typeHeader
  | member
  | staticMember
deriving DecidableEq, Repr

/-- The state of the pass with a cursor. -/
structure Pass where
  scope : Scope
  phase : Phase
  held : Option Held
  isStatic : Bool

/-- A comment was to be let go, and none is held. -/
inductive NothingHeld where
  | nothingHeld
deriving DecidableEq, Repr

/-- What a token does: the next state, the comments that are let go, and where the cursor is. -/
structure Advance where
  pass : Pass
  released : List Attachment
  rest : List Token

namespace Pass

/-- Lets the held comment go. -/
def release (p : Pass) (attach : Held → Attachment) (rest : List Token) :
    Except NothingHeld Advance :=
  match p.held with
  | some h => .ok ⟨{ p with held := none }, [attach h], rest⟩
  | none => .error .nothingHeld

/-- Lets the held comment go on its own, if there is one. -/
def flush (path : String) (p : Pass) (rest : List Token) : Except NothingHeld Advance :=
  if p.held.isSome then p.release (·.unattached path p.scope) rest else .ok ⟨p, [], rest⟩

/-- Reads on behind the word that opens a function: a method takes the comment, a closure does
    not. -/
def function (path : String) (p : Pass) (ts : List Token) : Except NothingHeld Advance :=
  let behind := match ts with
    | t :: more => if t.isPunct "&" then more else t :: more
    | [] => []
  match behind with
  | t :: more =>
    if t.kind = .ident then p.release (·.atMethod path p.scope t.text) more
    else p.flush path (t :: more)
  | [] => p.flush path []

/-- A token as ordinary material. -/
def scan (path : String) (p : Pass) (t : Token) (ts : List Token) : Except NothingHeld Advance :=
  match t.kind with
  | .docComment => match p.flush path ts with
    | .ok a => .ok { a with pass := { a.pass with held := some ⟨t.text, t.line⟩ } }
    | .error e => .error e
  | .punct | .kwAbstract => .ok ⟨p, [], ts⟩
  | .kwNamespace =>
    let name := readName [] ts
    .ok ⟨{ p with scope := { p.scope with namespaceName := nameOf name.1 } }, [], name.2⟩
  | .kwUse =>
    let imports := readImports p.scope "" ts
    .ok ⟨{ p with scope := imports.1 }, [], imports.2⟩
  | .kwClass => .ok ⟨{ p with phase := .typeHeader }, [], ts⟩
  | kind =>
    if p.held.isNone then .ok ⟨p, [], ts⟩
    else if kind.isVisibility || kind = .kwVar then
      .ok ⟨{ p with isStatic := false, phase := .member }, [], ts⟩
    else if kind = .kwStatic then .ok ⟨{ p with isStatic := true, phase := .staticMember }, [], ts⟩
    else if kind = .kwFunction then p.function path ts
    else p.flush path ts

/-- Reads on behind the name of a class: its parent, if it has one, before the class takes the
    comment. -/
def typeName (path : String) (p : Pass) (ts : List Token) : Except NothingHeld Advance :=
  match ts with
  | t :: more =>
    if t.kind = .kwExtends then
      let name := readName [] more
      let scope := setParent p.scope name.1
      { p with scope := scope }.release (·.atType path scope) name.2
    else p.release (·.atType path p.scope) (t :: more)
  | [] => p.release (·.atType path p.scope) []

/-- What one token does, with the tokens behind it. -/
def step (path : String) (p : Pass) (t : Token) (ts : List Token) : Except NothingHeld Advance :=
  let out := { p with phase := .scanning }
  match p.phase with
  | .scanning => p.scan path t ts
  | .typeHeader =>
    if t.kind = .ident then
      let named := { out with
        scope := { p.scope with typeName := some (p.scope.qualify t.text), parentType := none } }
      if p.held.isNone then .ok ⟨named, [], ts⟩ else named.typeName path ts
    else out.scan path t ts
  | .member =>
    if t.kind = .kwStatic then .ok ⟨{ p with isStatic := true }, [], ts⟩
    else if t.kind = .varName then out.release (·.atProperty path p.scope p.isStatic t.text) ts
    else if t.kind = .kwFunction then out.function path ts
    else if isModifier t || isTypeMaterial t then .ok ⟨p, [], ts⟩
    else out.scan path t ts
  | .staticMember =>
    if t.kind = .varName then out.release (·.atProperty path p.scope p.isStatic t.text) ts
    else if t.kind.isVisibility then .ok ⟨{ p with phase := .member }, [], ts⟩
    else if t.kind = .kwFunction then out.function path ts
    else if isTypeMaterial t then .ok ⟨p, [], ts⟩
    else out.scan path t ts

/-! The cursor only moves forward. -/

theorem rest_release {p : Pass} {attach : Held → Attachment} {ts : List Token} {a : Advance}
    (h : p.release attach ts = .ok a) : a.rest = ts := by
  unfold release at h
  split at h
  · cases h; rfl
  · cases h

theorem rest_flush {path : String} {p : Pass} {ts : List Token} {a : Advance}
    (h : p.flush path ts = .ok a) : a.rest = ts := by
  unfold flush at h
  split at h
  · exact rest_release h
  · cases h; rfl

theorem rest_function {path : String} {p : Pass} {ts : List Token} {a : Advance}
    (h : p.function path ts = .ok a) : a.rest.length ≤ ts.length := by
  unfold function at h
  dsimp only at h
  have behind_le : ∀ us : List Token,
      (match us with
        | t :: more => if t.isPunct "&" then more else t :: more
        | [] => []).length ≤ us.length := by
    intro us
    cases us with
    | nil => exact Nat.le_refl _
    | cons t more => dsimp only; split <;> simp
  have hle := behind_le ts
  split at h
  · rename_i t more he
    rw [he] at hle
    split at h
    · rw [rest_release h]
      exact Nat.le_trans (Nat.le_succ _) hle
    · rw [rest_flush h]
      exact hle
  · rw [rest_flush h]
    exact Nat.zero_le _

theorem rest_typeName {path : String} {p : Pass} {ts : List Token} {a : Advance}
    (h : p.typeName path ts = .ok a) : a.rest.length ≤ ts.length := by
  unfold typeName at h
  split at h
  · rename_i t more
    split at h
    · rw [rest_release h]
      exact Nat.le_succ_of_le (readName_length [] more)
    · exact Nat.le_of_eq (congrArg List.length (rest_release h))
  · exact Nat.le_of_eq (congrArg List.length (rest_release h))

theorem rest_scan {path : String} {p : Pass} {t : Token} {ts : List Token} {a : Advance}
    (h : p.scan path t ts = .ok a) : a.rest.length ≤ ts.length := by
  unfold scan at h
  split at h
  · split at h
    · rename_i b hb
      have e := rest_flush hb
      cases h
      exact Nat.le_of_eq (congrArg List.length e)
    · cases h
  · cases h; exact Nat.le_refl _
  · cases h; exact Nat.le_refl _
  · cases h; exact readName_length [] ts
  · cases h; exact readImports_length p.scope "" ts
  · cases h; exact Nat.le_refl _
  · split at h
    · cases h; exact Nat.le_refl _
    · split at h
      · cases h; exact Nat.le_refl _
      · split at h
        · cases h; exact Nat.le_refl _
        · split at h
          · exact rest_function h
          · exact Nat.le_of_eq (congrArg List.length (rest_flush h))

theorem rest_step {path : String} {p : Pass} {t : Token} {ts : List Token} {a : Advance}
    (h : p.step path t ts = .ok a) : a.rest.length ≤ ts.length := by
  unfold step at h
  dsimp only at h
  split at h
  · exact rest_scan h
  · split at h
    · split at h
      · cases h; exact Nat.le_refl _
      · exact rest_typeName h
    · exact rest_scan h
  · split at h
    · cases h; exact Nat.le_refl _
    · split at h
      · exact Nat.le_of_eq (congrArg List.length (rest_release h))
      · split at h
        · exact rest_function h
        · split at h
          · cases h; exact Nat.le_refl _
          · exact rest_scan h
  · split at h
    · exact Nat.le_of_eq (congrArg List.length (rest_release h))
    · split at h
      · cases h; exact Nat.le_refl _
      · split at h
        · exact rest_function h
        · split at h
          · cases h; exact Nat.le_refl _
          · exact rest_scan h

/-- The pass over tokens: the last state and the comments that were let go. -/
def run (path : String) (p : Pass) : List Token → Except NothingHeld (Pass × List Attachment)
  | [] => match { p with phase := .scanning }.flush path [] with
    | .ok a => .ok (a.pass, a.released)
    | .error e => .error e
  | t :: ts => match _h : p.step path t ts with
    | .ok a => match a.pass.run path a.rest with
      | .ok (last, more) => .ok (last, a.released ++ more)
      | .error e => .error e
    | .error e => .error e
termination_by ts => ts.length
decreasing_by exact Nat.lt_succ_of_le (rest_step _h)

end Pass

/-! ## 3. Modes stand for readers -/

/-- An outcome with comments let go before it. -/
def Outcome.behind (released : List Attachment) (o : Outcome) : Outcome := (o.1, released ++ o.2)

@[simp] theorem Outcome.behind_nil (o : Outcome) : o.behind [] = o := rfl

theorem Walk.run_cons (path : String) (w : Walk) (t : Token) (ts : List Token) :
    w.run path (t :: ts) = ((w.step path t).1.run path ts).behind (w.step path t).2 := rfl

/-- A token that a mode reads as ordinary material is read as it would be outside the mode. -/
theorem run_eq_scanning {path : String} {w : Walk} {scope : Scope} {held : Option Held} {t : Token}
    (h : w.step path t = scan path scope held t) (ts : List Token) :
    w.run path (t :: ts) = Walk.run path ⟨scope, .scanning held⟩ (t :: ts) := by
  rw [Walk.run_cons, Walk.run_cons, h]
  rfl

/-- The same, with a comment let go before the token. -/
theorem run_eq_scanning_after {path : String} {w : Walk} {scope : Scope} {held : Option Held}
    {t : Token} {a : Attachment} (h : w.step path t = .after a (scan path scope held t))
    (ts : List Token) :
    w.run path (t :: ts) = (Walk.run path ⟨scope, .scanning held⟩ (t :: ts)).behind [a] := by
  rw [Walk.run_cons, Walk.run_cons, h]
  rfl

/-- What `readName` leaves does not go on with the name. -/
theorem readName_stops {parts : List String} {ts : List Token} {t : Token} {rest : List Token}
    (h : (readName parts ts).2 = t :: rest) : continueName? (readName parts ts).1 t = none := by
  induction ts generalizing parts with
  | nil => cases h
  | cons u us ih =>
      unfold readName at h ⊢
      cases hc : continueName? parts u with
      | some more => rw [hc] at h; exact ih h
      | none => rw [hc] at h; cases h; exact hc

/-- A mode that collects the parts of a name takes the whole name in. -/
theorem run_readName {path : String} {scope : Scope} (mode : List String → Mode)
    (hmode : ∀ parts t more, continueName? parts t = some more →
      Walk.step path ⟨scope, mode parts⟩ t = (⟨scope, mode more⟩, []))
    (parts : List String) (ts : List Token) :
    Walk.run path ⟨scope, mode parts⟩ ts =
      Walk.run path ⟨scope, mode (readName parts ts).1⟩ (readName parts ts).2 := by
  induction ts generalizing parts with
  | nil => rfl
  | cons t ts ih =>
      unfold readName
      cases hc : continueName? parts t with
      | some more =>
          rw [Walk.run_cons, hmode parts t more hc]
          exact ih more
      | none => rfl

theorem run_namespaceName (path : String) (scope : Scope) (held : Option Held) (ts : List Token) :
    Walk.run path ⟨scope, .namespaceName held []⟩ ts =
      Walk.run path ⟨{ scope with namespaceName := nameOf (readName [] ts).1 }, .scanning held⟩
        (readName [] ts).2 := by
  rw [run_readName (.namespaceName held) (fun parts t more hc => by
    simp only [Walk.step, hc])]
  cases hr : (readName [] ts).2 with
  | nil => rfl
  | cons t rest => exact run_eq_scanning (by simp only [Walk.step, readName_stops hr]) rest

theorem run_parentName (path : String) (scope : Scope) (h : Held) (ts : List Token) :
    Walk.run path ⟨scope, .parentName h []⟩ ts =
      (Walk.run path ⟨setParent scope (readName [] ts).1, .scanning none⟩
        (readName [] ts).2).behind [h.atType path (setParent scope (readName [] ts).1)] := by
  rw [run_readName (.parentName h) (fun parts t more hc => by
    simp only [Walk.step, hc])]
  cases hr : (readName [] ts).2 with
  | nil => rfl
  | cons t rest => exact run_eq_scanning_after (by simp only [Walk.step, readName_stops hr]) rest

theorem run_typeNamed (path : String) (scope : Scope) (h : Held) (t : Token) (ts : List Token)
    (ht : t.kind ≠ .kwExtends) :
    Walk.run path ⟨scope, .typeNamed h⟩ (t :: ts) =
      (Walk.run path ⟨scope, .scanning none⟩ (t :: ts)).behind [h.atType path scope] :=
  run_eq_scanning_after (by simp only [Walk.step, if_neg ht]) ts

/-- The name behind the word that opens a function. -/
theorem run_methodName_ident (path : String) (scope : Scope) (h : Held) (byReference : Bool)
    {t : Token} (ht : t.kind = .ident) (ts : List Token) :
    Walk.run path ⟨scope, .methodName h byReference⟩ (t :: ts) =
      (Walk.run path ⟨scope, .scanning none⟩ ts).behind [h.atMethod path scope t.text] := by
  have hp : t.isPunct "&" = false := by simp [Token.isPunct, ht]
  rw [Walk.run_cons]
  simp only [Walk.step, hp, ht, Bool.and_false, Bool.false_eq_true, if_false, if_true]

/-- Anything else behind that word makes the function a closure. -/
theorem run_methodName_closure (path : String) (scope : Scope) (h : Held) (byReference : Bool)
    {t : Token} (ht : t.kind ≠ .ident) (hr : byReference = true ∨ t.isPunct "&" = false)
    (ts : List Token) :
    Walk.run path ⟨scope, .methodName h byReference⟩ (t :: ts) =
      (Walk.run path ⟨scope, .scanning none⟩ (t :: ts)).behind [h.unattached path scope] := by
  have hb : (!byReference && t.isPunct "&") = false := by
    rcases hr with rfl | hr
    · rfl
    · rw [hr, Bool.and_false]
  refine run_eq_scanning_after ?_ ts
  simp only [Walk.step, hb, Bool.false_eq_true, if_false, if_neg ht]

mutual

/-- **An import statement is read as `readImports` reads it.** -/
theorem run_importName (path : String) (scope : Scope) (held : Option Held) (group : String)
    (ts : List Token) :
    Walk.run path ⟨scope, .importName held group []⟩ ts =
      Walk.run path ⟨(readImports scope group ts).1, .scanning held⟩
        (readImports scope group ts).2 := by
  have hname := readName_length [] ts
  rw [run_readName (.importName held group) (fun parts t more hc => by
    simp only [Walk.step, hc]), readImports]
  dsimp only
  by_cases hempty : nameOf (readName [] ts).1 = ""
  · rw [if_pos hempty]
    cases hr : (readName [] ts).2 with
    | nil => simp only [Walk.run, Walk.finish, Walk.finalScope, if_pos hempty, Mode.held]
    | cons t rest =>
        refine run_eq_scanning ?_ rest
        simp only [Walk.step, readName_stops hr, endImportName, if_pos hempty]
  · rw [if_neg hempty]
    cases hr : (readName [] ts).2 with
    | nil =>
        simp only [Walk.run, Walk.finish, Walk.finalScope, if_neg hempty, Mode.held, readAlias,
          readImportTail]
    | cons t rest =>
        have hrest : rest.length < ts.length := by
          rw [hr, List.length_cons] at hname
          exact hname
        by_cases has : t.kind = .kwAs
        · rw [Walk.run_cons]
          simp only [Walk.step, readName_stops hr, endImportName, if_neg hempty, if_pos has,
            Outcome.behind_nil, readAlias]
          cases rest with
          | nil => rfl
          | cons short rest =>
              by_cases hs : short.kind = .ident
              · simp only [if_pos hs]
                rw [← run_importTail, Walk.run_cons]
                simp only [Walk.step, if_pos hs, Outcome.behind_nil]
              · simp only [if_neg hs]
                exact run_eq_scanning (by simp only [Walk.step, if_neg hs]) rest
        · simp only [readAlias, if_neg has]
          rw [← run_importTail, Walk.run_cons, Walk.run_cons]
          simp only [Walk.step, readName_stops hr, endImportName, if_neg hempty, if_neg has]
termination_by 2 * ts.length + 1
decreasing_by
  all_goals simp only [List.length_cons] at *; omega

theorem run_importTail (path : String) (scope : Scope) (held : Option Held)
    (group target short : String) (ts : List Token) :
    Walk.run path ⟨scope, .importTail held group target short⟩ ts =
      Walk.run path ⟨(readImportTail scope group target short ts).1, .scanning held⟩
        (readImportTail scope group target short ts).2 := by
  cases ts with
  | nil => rw [readImportTail]; rfl
  | cons t ts =>
      rw [readImportTail]
      by_cases hopen : t.isPunct "\x7b"
      · rw [if_pos hopen, ← run_importName, Walk.run_cons]
        simp only [Walk.step, stepImportTail, if_pos hopen, Outcome.behind_nil]
      · rw [if_neg hopen]
        by_cases hclose : t.isPunct "\x7d"
        · rw [Walk.run_cons]
          simp only [Walk.step, stepImportTail, if_neg hopen, if_pos hclose, Outcome.behind_nil]
          cases ts with
          | nil => rfl
          | cons u us =>
              by_cases hcomma : u.isPunct ","
              · simp only [if_pos hcomma]
                rw [← run_importName, Walk.run_cons]
                simp only [Walk.step, if_pos hcomma, Outcome.behind_nil]
              · simp only [if_neg hcomma]
                exact run_eq_scanning (by simp only [Walk.step, if_neg hcomma]) us
        · by_cases hcomma : t.isPunct ","
          · simp only [if_neg hclose, if_pos hcomma]
            rw [← run_importName, Walk.run_cons]
            simp only [Walk.step, stepImportTail, if_neg hopen, if_neg hclose, if_pos hcomma,
              Outcome.behind_nil]
          · simp only [if_neg hclose, if_neg hcomma]
            refine run_eq_scanning ?_ ts
            simp only [Walk.step, stepImportTail, if_neg hopen, if_neg hclose, if_neg hcomma]
termination_by 2 * ts.length
decreasing_by
  all_goals subst_vars; simp only [List.length_cons]; omega

end

/-! ## 4. Both passes agree -/

/-- **The states that the pass can be in**, with the mode each of them stands for: between two
    tokens the phases of a member hold a comment, and a static one knows that it is static. -/
inductive Agrees : Pass → Walk → Prop where
  | scanning (scope : Scope) (held : Option Held) (isStatic : Bool) :
      Agrees ⟨scope, .scanning, held, isStatic⟩ ⟨scope, .scanning held⟩
  | typeHeader (scope : Scope) (held : Option Held) (isStatic : Bool) :
      Agrees ⟨scope, .typeHeader, held, isStatic⟩ ⟨scope, .typeHeader held⟩
  | member (scope : Scope) (h : Held) (isStatic : Bool) :
      Agrees ⟨scope, .member, some h, isStatic⟩ ⟨scope, .member h isStatic⟩
  | staticMember (scope : Scope) (h : Held) :
      Agrees ⟨scope, .staticMember, some h, true⟩ ⟨scope, .staticMember h⟩

/-- A step that succeeds, leads to a state that stands for a mode, and leaves to that mode what is
    left of an outcome. -/
def LeavesFor (path : String) (o : Outcome) (step : Except NothingHeld Advance) : Prop :=
  ∃ a w, step = .ok a ∧ Agrees a.pass w ∧ o = (w.run path a.rest).behind a.released

theorem leavesFor_function (path : String) (scope : Scope) (h : Held) (isStatic : Bool)
    (ts : List Token) :
    LeavesFor path (Walk.run path ⟨scope, .methodName h false⟩ ts)
      (Pass.function path ⟨scope, .scanning, some h, isStatic⟩ ts) := by
  cases ts with
  | nil => exact ⟨_, _, rfl, .scanning scope none isStatic, rfl⟩
  | cons t ts =>
      by_cases hamp : t.isPunct "&" = true
      · have hstep : Walk.run path ⟨scope, .methodName h false⟩ (t :: ts) =
            Walk.run path ⟨scope, .methodName h true⟩ ts := by
          rw [Walk.run_cons]
          simp only [Walk.step, hamp, Bool.not_false, Bool.and_self, if_true, Outcome.behind_nil]
        rw [hstep]
        simp only [Pass.function, if_pos hamp]
        cases ts with
        | nil => exact ⟨_, _, rfl, .scanning scope none isStatic, rfl⟩
        | cons u us =>
            by_cases hu : u.kind = .ident
            · rw [run_methodName_ident path scope h true hu]
              simp only [if_pos hu]
              exact ⟨_, _, rfl, .scanning scope none isStatic, rfl⟩
            · rw [run_methodName_closure path scope h true hu (.inl rfl)]
              simp only [if_neg hu]
              exact ⟨_, _, rfl, .scanning scope none isStatic, rfl⟩
      · simp only [Pass.function, if_neg hamp]
        by_cases ht : t.kind = .ident
        · rw [run_methodName_ident path scope h false ht]
          simp only [if_pos ht]
          exact ⟨_, _, rfl, .scanning scope none isStatic, rfl⟩
        · rw [run_methodName_closure path scope h false ht (.inr (by simpa using hamp))]
          simp only [if_neg ht]
          exact ⟨_, _, rfl, .scanning scope none isStatic, rfl⟩

theorem leavesFor_typeName (path : String) (scope : Scope) (h : Held) (isStatic : Bool)
    (ts : List Token) :
    LeavesFor path (Walk.run path ⟨scope, .typeNamed h⟩ ts)
      (Pass.typeName path ⟨scope, .scanning, some h, isStatic⟩ ts) := by
  cases ts with
  | nil => exact ⟨_, _, rfl, .scanning scope none isStatic, rfl⟩
  | cons t ts =>
      by_cases ht : t.kind = .kwExtends
      · have hstep : Walk.run path ⟨scope, .typeNamed h⟩ (t :: ts) =
            Walk.run path ⟨scope, .parentName h []⟩ ts := by
          rw [Walk.run_cons]
          simp only [Walk.step, if_pos ht, Outcome.behind_nil]
        rw [hstep, run_parentName]
        simp only [Pass.typeName, if_pos ht]
        exact ⟨_, _, rfl, .scanning _ none isStatic, rfl⟩
      · rw [run_typeNamed path scope h t ts ht]
        simp only [Pass.typeName, if_neg ht]
        exact ⟨_, _, rfl, .scanning scope none isStatic, rfl⟩

theorem leavesFor_scan (path : String) (scope : Scope) (held : Option Held) (isStatic : Bool)
    (t : Token) (ts : List Token) :
    LeavesFor path (Walk.run path ⟨scope, .scanning held⟩ (t :: ts))
      (Pass.scan path ⟨scope, .scanning, held, isStatic⟩ t ts) := by
  rw [Walk.run_cons]
  simp only [Walk.step]
  unfold scan Pass.scan
  cases hk : t.kind with
  | docComment => cases held <;> exact ⟨_, _, rfl, .scanning scope _ isStatic, rfl⟩
  | punct | kwAbstract => exact ⟨_, _, rfl, .scanning scope held isStatic, rfl⟩
  | kwNamespace =>
      refine ⟨_, _, rfl, .scanning _ held isStatic, ?_⟩
      exact run_namespaceName path scope held ts
  | kwUse =>
      refine ⟨_, _, rfl, .scanning _ held isStatic, ?_⟩
      exact run_importName path scope held "" ts
  | kwClass => exact ⟨_, _, rfl, .typeHeader scope held isStatic, rfl⟩
  | kwFunction =>
      cases held with
      | none => exact ⟨_, _, rfl, .scanning scope none isStatic, rfl⟩
      | some h => exact leavesFor_function path scope h isStatic ts
  | kwPublic | kwProtected | kwPrivate | kwVar =>
      cases held with
      | none => exact ⟨_, _, rfl, .scanning scope none isStatic, rfl⟩
      | some h => exact ⟨_, _, rfl, .member scope h false, rfl⟩
  | kwStatic =>
      cases held with
      | none => exact ⟨_, _, rfl, .scanning scope none isStatic, rfl⟩
      | some h => exact ⟨_, _, rfl, .staticMember scope h, rfl⟩
  | kwExtends | kwAs | ident | varName | keyword | other =>
      cases held <;> exact ⟨_, _, rfl, .scanning scope none isStatic, rfl⟩

/-- **One step**: the pass with the cursor does not stop, and what it leaves is what the mode it
    reaches makes of the rest. -/
theorem leavesFor_step (path : String) {p : Pass} {w : Walk} (hpw : Agrees p w) (t : Token)
    (ts : List Token) : LeavesFor path (w.run path (t :: ts)) (p.step path t ts) := by
  cases hpw with
  | scanning scope held isStatic => exact leavesFor_scan path scope held isStatic t ts
  | typeHeader scope held isStatic =>
      by_cases ht : t.kind = .ident
      · rw [Walk.run_cons]
        simp only [Walk.step, Pass.step, if_pos ht]
        cases held with
        | none => exact ⟨_, _, rfl, .scanning _ none isStatic, rfl⟩
        | some h => exact leavesFor_typeName path _ h isStatic ts
      · have hscan : Walk.step path ⟨scope, .typeHeader held⟩ t = scan path scope held t := by
          simp only [Walk.step, if_neg ht]
        rw [run_eq_scanning hscan]
        simp only [Pass.step, if_neg ht]
        exact leavesFor_scan path scope held isStatic t ts
  | member scope h isStatic =>
      by_cases hs : t.kind = .kwStatic
      · rw [Walk.run_cons]
        simp only [Walk.step, Pass.step, if_pos hs]
        exact ⟨_, _, rfl, .member scope h true, rfl⟩
      by_cases hv : t.kind = .varName
      · rw [Walk.run_cons]
        simp only [Walk.step, Pass.step, if_neg hs, if_pos hv]
        exact ⟨_, _, rfl, .scanning scope none isStatic, rfl⟩
      by_cases hf : t.kind = .kwFunction
      · rw [Walk.run_cons]
        simp only [Walk.step, Pass.step, if_neg hs, if_neg hv, if_pos hf]
        exact leavesFor_function path scope h isStatic ts
      by_cases hm : (isModifier t || isTypeMaterial t) = true
      · rw [Walk.run_cons]
        simp only [Walk.step, Pass.step, if_neg hs, if_neg hv, if_neg hf, if_pos hm]
        exact ⟨_, _, rfl, .member scope h isStatic, rfl⟩
      · have hscan : Walk.step path ⟨scope, .member h isStatic⟩ t = scan path scope (some h) t := by
          simp only [Walk.step, if_neg hs, if_neg hv, if_neg hf, if_neg hm]
        rw [run_eq_scanning hscan]
        simp only [Pass.step, if_neg hs, if_neg hv, if_neg hf, if_neg hm]
        exact leavesFor_scan path scope (some h) isStatic t ts
  | staticMember scope h =>
      by_cases hv : t.kind = .varName
      · rw [Walk.run_cons]
        simp only [Walk.step, Pass.step, if_pos hv]
        exact ⟨_, _, rfl, .scanning scope none true, rfl⟩
      by_cases hp : t.kind.isVisibility = true
      · rw [Walk.run_cons]
        simp only [Walk.step, Pass.step, if_neg hv, if_pos hp]
        exact ⟨_, _, rfl, .member scope h true, rfl⟩
      by_cases hf : t.kind = .kwFunction
      · rw [Walk.run_cons]
        simp only [Walk.step, Pass.step, if_neg hv, if_neg hp, if_pos hf]
        exact leavesFor_function path scope h true ts
      by_cases hm : isTypeMaterial t = true
      · rw [Walk.run_cons]
        simp only [Walk.step, Pass.step, if_neg hv, if_neg hp, if_neg hf, if_pos hm]
        exact ⟨_, _, rfl, .staticMember scope h, rfl⟩
      · have hscan : Walk.step path ⟨scope, .staticMember h⟩ t = scan path scope (some h) t := by
          simp only [Walk.step, if_neg hv, if_neg hp, if_neg hf, if_neg hm]
        rw [run_eq_scanning hscan]
        simp only [Pass.step, if_neg hv, if_neg hp, if_neg hf, if_neg hm]
        exact leavesFor_scan path scope (some h) true t ts

theorem agrees_finish (path : String) {p : Pass} {w : Walk} (hpw : Agrees p w) :
    ∃ isStatic, p.run path [] =
      .ok (⟨(w.run path []).1.scope, .scanning, none, isStatic⟩, (w.run path []).2) := by
  rw [Pass.run]
  cases hpw with
  | scanning scope held isStatic => exact ⟨isStatic, by cases held <;> rfl⟩
  | typeHeader scope held isStatic => exact ⟨isStatic, by cases held <;> rfl⟩
  | member scope h isStatic => exact ⟨isStatic, rfl⟩
  | staticMember scope h => exact ⟨true, rfl⟩

/-- **Both passes agree**: from a state that stands for a mode, the pass with the cursor never asks
    for a comment that is not held. It lets the same comments go as the mode does, and ends in the
    same scope, scanning, with no comment held. -/
theorem Pass.run_agrees (path : String) {p : Pass} {w : Walk} (hpw : Agrees p w)
    (ts : List Token) :
    ∃ isStatic, p.run path ts =
      .ok (⟨(w.run path ts).1.scope, .scanning, none, isStatic⟩, (w.run path ts).2) := by
  -- the cursor may skip tokens, so the induction is on how many are left
  induction hn : ts.length using Nat.strongRecOn generalizing p w ts with
  | ind n ih =>
      cases ts with
      | nil => exact agrees_finish path hpw
      | cons t ts =>
          obtain ⟨a, next, hstep, hnext, hrun⟩ := leavesFor_step path hpw t ts
          have hlt : a.rest.length < n := by
            rw [← hn]
            exact Nat.lt_succ_of_le (Pass.rest_step hstep)
          obtain ⟨isStatic, hrest⟩ := ih _ hlt hnext a.rest rfl
          refine ⟨isStatic, ?_⟩
          rw [Pass.run, hstep]
          dsimp only
          rw [hrest, hrun]
          rfl

end Marginalia.Php

import Marginalia.Proofs.Names
import Marginalia.Proofs.Outline.Declarations
import Marginalia.Proofs.Outline.ForeignImports

/-!
# Classes and their parents by full names

In front of a class stand the statements that give names their meaning: the namespace of the file
and what it imports. This module says which rows of tokens are such statements, and what they
declare:

* `WritesName`: tokens that write a name, wherever its text is cut into words and separators;
* `ImportClause`, `UseStatement`: imports one by one, in lists and in groups, with and without an
  alias of their own;
* `NamespaceStatement`, `Preamble`: any row of such statements.

A pass reads a statement as the one step that it is in the scope (`Statement.enter`), whatever
comment is held (`run_useStatement`, `run_preamble`). So the class behind the statements is called
by the namespace they declare, and its parent by what its name refers to behind them. Main
statement: `class_and_parent_in_full`.
-/

namespace Marginalia.Php

/-! ## 1. Imports -/

/-- Tokens that write a name. -/
structure WritesName (ts : List Token) (rooted : Bool) (segments : List String) : Prop where
  spells : SpellsName true ts
  text : nameText ts = written rooted segments
  isName : IsName segments

/-- One import of a statement. In a group, the names have a common start, and are not rooted. -/
inductive ImportClause (start : List String) : List Token → Import → Prop
  /-- The last segment is the alias. -/
  | plain {ts : List Token} {rooted : Bool} {segments : List String} {i : Import}
      (hname : WritesName ts rooted segments) (hroot : rooted = true → start = [])
      (htarget : i.target = start ++ segments) (hshort : i.short = segments.getLastD "") :
      ImportClause start ts i
  /-- An alias of its own. -/
  | renamed {ts : List Token} {word short : Token} {rooted : Bool} {segments : List String}
      {i : Import} (hname : WritesName ts rooted segments) (hroot : rooted = true → start = [])
      (hword : word.kind = .kwAs) (hkind : short.kind = .ident)
      (htarget : i.target = start ++ segments) (hshort : i.short = short.text) :
      ImportClause start (ts ++ [word, short]) i

/-- Imports with commas between them. -/
inductive ImportClauses (start : List String) : List Token → List Import → Prop
  | one {ts : List Token} {i : Import} (hclause : ImportClause start ts i) :
      ImportClauses start ts [i]
  | more {ts us : List Token} {comma : Token} {i : Import} {imports : List Import}
      (hclause : ImportClause start ts i) (hcomma : comma.isPunct "," = true)
      (hmore : ImportClauses start us imports) :
      ImportClauses start (ts ++ comma :: us) (i :: imports)

/-- **A statement that imports classes.** -/
inductive UseStatement : List Token → List Import → Prop
  | list {use semicolon : Token} {ts : List Token} {imports : List Import}
      (huse : use.kind = .kwUse) (hclauses : ImportClauses [] ts imports)
      (hend : semicolon.isPunct ";" = true) :
      UseStatement (use :: (ts ++ [semicolon])) imports
  /-- A group, with a comma behind its last name or without. -/
  | group {use slash opening closing semicolon : Token} {front ts comma : List Token}
      {rooted : Bool} {start : List String} {imports : List Import} (huse : use.kind = .kwUse)
      (hfront : WritesName front rooted start) (hslash : slash.isPunct "\\" = true)
      (hopening : opening.isPunct "\x7b" = true) (hclauses : ImportClauses start ts imports)
      (hcomma : comma = [] ∨ ∃ t, comma = [t] ∧ t.isPunct "," = true)
      (hclosing : closing.isPunct "\x7d" = true) (hend : semicolon.isPunct ";" = true) :
      UseStatement
        (use :: (front ++ slash :: opening :: (ts ++ (comma ++ [closing, semicolon])))) imports

/-! ## 2. Statements -/

/-- The declaration of a namespace, which may be the one outside of any. -/
inductive NamespaceStatement : List Token → List String → Prop
  | named {word sign : Token} {ts : List Token} {segments : List String}
      (hword : word.kind = .kwNamespace) (hname : WritesName ts false segments)
      (hsign : sign.isPunct ";" = true ∨ sign.isPunct "\x7b" = true) :
      NamespaceStatement (word :: (ts ++ [sign])) segments
  | outer {word sign : Token} (hword : word.kind = .kwNamespace)
      (hsign : sign.isPunct "\x7b" = true) : NamespaceStatement [word, sign] []

/-- What a statement in front of a class declares. -/
inductive Statement where
  | space (segments : List String)
  | use (imports : List Import)

/-- The namespace that a statement declares. -/
def Statement.space? : Statement → Option (List String)
  | .space segments => some segments
  | .use _ => none

/-- The imports that a statement declares. -/
def Statement.imports : Statement → List Import
  | .space _ => []
  | .use imports => imports

/-- The namespace behind statements: the last one, or none. -/
def spaceOf (statements : List Statement) : List String :=
  (statements.filterMap Statement.space?).getLast?.getD []

/-- The imports of statements, in their order. -/
def importsOf (statements : List Statement) : List Import := statements.flatMap Statement.imports

/-- **What stands in front of a class**: any statements that give names their meaning. -/
inductive Preamble : List Token → List Statement → Prop
  | nil : Preamble [] []
  | space {ts us : List Token} {segments : List String} {more : List Statement}
      (hspace : NamespaceStatement ts segments) (hmore : Preamble us more) :
      Preamble (ts ++ us) (.space segments :: more)
  | use {ts us : List Token} {imports : List Import} {more : List Statement}
      (huse : UseStatement ts imports) (hmore : Preamble us more) :
      Preamble (ts ++ us) (.use imports :: more)

/-- A scope with an import. -/
def enterImport (scope : Scope) (i : Import) : Scope := scope.addImport i.short (joinAll i.target)

/-- A scope behind a statement. -/
def Statement.enter (scope : Scope) : Statement → Scope
  | .space segments => { scope with namespaceName := joinAll segments }
  | .use imports => imports.foldl enterImport scope

/-! ## 3. Texts of imported names -/

/-- The text in front of the names of a clause: none, or the start of a group. -/
inductive GroupText : String → List String → Prop
  | none : GroupText "" []
  | group (rooted : Bool) {start : List String} (hstart : IsName start) :
      GroupText (written rooted start ++ "\\") start

/-- A text behind which a segment begins. -/
def OpenEnded (s : String) : Prop := s = "" ∨ ∃ front, s = front ++ "\\"

theorem OpenEnded.append {s t : String} (hs : OpenEnded s) (ht : OpenEnded t) :
    OpenEnded (s ++ t) := by
  rcases ht with rfl | ⟨front, rfl⟩
  · rwa [String.append_empty]
  · exact .inr ⟨s ++ front, (String.append_assoc).symm⟩

/-- A name ends in its last segment. -/
theorem joinAll_eq_append_last {segments : List String} (h : segments ≠ []) :
    ∃ front, OpenEnded front ∧ joinAll segments = front ++ segments.getLastD "" := by
  induction segments with
  | nil => exact absurd rfl h
  | cons s more ih =>
      by_cases hempty : more = []
      · subst hempty
        exact ⟨"", .inl rfl, String.empty_append.symm⟩
      · obtain ⟨front, hfront, hmore⟩ := ih hempty
        refine ⟨s ++ "\\" ++ front, OpenEnded.append (.inr ⟨s, rfl⟩) hfront, ?_⟩
        have hlast : (s :: more).getLastD "" = more.getLastD "" := by
          obtain ⟨t, rest, rfl⟩ := List.exists_cons_of_ne_nil hempty
          rfl
        rw [joinAll_cons s hempty, hmore, hlast, Marginalia.joinNames, ← String.append_assoc]

/-- The segment at the end of a text is its alias. -/
theorem defaultAlias_append {front s : String} (hfront : OpenEnded front) (hs : IsSegment s) :
    defaultAlias (front ++ s) = s := by
  have hreverse : (front ++ s).toList.reverse = s.toList.reverse ++ front.toList.reverse := by
    rw [String.toList_append, List.reverse_append]
  -- the last character is one of the segment, so there is nothing to strip at the end
  have hkeep : (front ++ s).toList.reverse.dropWhile (· = separator) =
      (front ++ s).toList.reverse := by
    obtain ⟨c, cs, hcs⟩ := List.exists_cons_of_ne_nil fun hnil =>
      hs.nonempty (String.toList_eq_nil_iff.mp (List.reverse_eq_nil_iff.mp hnil))
    have hc : c ≠ separator := by
      rintro rfl
      exact hs.whole (List.mem_reverse.mp (hcs ▸ List.mem_cons_self))
    rw [hreverse, hcs, List.cons_append, List.dropWhile_cons_of_neg (by simpa using hc)]
  have hfrontEnd : front.toList.reverse.takeWhile (· != separator) = [] := by
    rcases hfront with rfl | ⟨x, rfl⟩
    · rfl
    · rw [String.toList_append, List.reverse_append]
      rfl
  have hall : ∀ c ∈ s.toList.reverse, (c != separator) = true := fun c hc =>
    ne_separator_of_isSegment hs c (List.mem_reverse.mp hc)
  rw [defaultAlias, hkeep, List.reverse_reverse, String.ofList_toList, basename, hreverse,
    List.takeWhile_append_of_pos hall, hfrontEnd, List.append_nil, List.reverse_reverse,
    String.ofList_toList]

section Texts

variable {group : String} {start segments : List String} {rooted : Bool}
  (hgroup : GroupText group start) (hname : IsName segments)
  (hroot : rooted = true → start = [])

include hgroup

theorem openEnded_group : OpenEnded group := by
  cases hgroup with
  | none => exact .inl rfl
  | group rooted hstart => exact .inr ⟨_, rfl⟩

include hname

theorem defaultAlias_import :
    defaultAlias (group ++ written rooted segments) = segments.getLastD "" := by
  obtain ⟨front, hfront, hjoined⟩ := joinAll_eq_append_last hname.nonempty
  have hopen : OpenEnded (if rooted then "\\" else "") := by
    cases rooted with
    | false => exact .inl rfl
    | true => exact .inr ⟨"", rfl⟩
  have hlast : IsSegment (segments.getLastD "") := by
    refine hname.proper _ ?_
    rw [List.getLastD_eq_getLast?, List.getLast?_eq_some_getLast hname.nonempty]
    exact List.getLast_mem _
  rw [written, hjoined, ← String.append_assoc, ← String.append_assoc]
  exact defaultAlias_append (((openEnded_group hgroup).append hopen).append hfront) hlast

include hroot

/-- **An imported name stands for the start of its group and its own segments.** -/
theorem dropSeparators_import :
    dropSeparators (group ++ written rooted segments) = joinAll (start ++ segments) := by
  cases hgroup with
  | none => rw [String.empty_append, dropSeparators_written hname, List.nil_append]
  | group groupRooted hstart =>
      have hplain : rooted = false :=
        Bool.eq_false_iff.mpr fun h => hstart.nonempty (hroot h)
      have htext : written groupRooted start ++ "\\" ++ joinAll segments =
          written groupRooted (start ++ segments) := by
        rw [written, written, joinAll_append hstart.nonempty hname.nonempty,
          Marginalia.joinNames]
        simp only [String.append_assoc]
      rw [hplain, written_false, htext, dropSeparators_written (hstart.append hname)]

end Texts

/-- Separators in front of a name make no other import of it. -/
theorem addImport_of_dropSeparators (scope : Scope) (short : String) {a b : String}
    (h : dropSeparators a = dropSeparators b) :
    scope.addImport short a = scope.addImport short b := by
  unfold Scope.addImport Imports.add Scope.leadsToNotes
  rw [h]

/-! ## 4. Statements are read as they are meant -/

/-- A sign that no name goes on with. -/
def Token.IsStop (t : Token) : Prop := ∃ s ∈ [";", ",", "\x7b", "\x7d"], t.isPunct s = true

theorem isStop_of_isPunct {t : Token} {s : String} (ht : t.isPunct s = true)
    (hs : s ∈ [";", ",", "\x7b", "\x7d"]) : t.IsStop := ⟨s, hs, ht⟩

theorem Token.IsStop.kind {t : Token} (ht : t.IsStop) : t.kind = .punct := by
  obtain ⟨s, -, hs⟩ := ht
  exact kind_of_isPunct hs

theorem Token.IsStop.kind_ne {t : Token} (ht : t.IsStop) {k : TokenKind} (hk : k ≠ .punct) :
    t.kind ≠ k := fun h => hk (h.symm.trans ht.kind)

theorem Token.IsStop.slash {t : Token} (ht : t.IsStop) : t.isPunct "\\" = false := by
  obtain ⟨s, hmem, hs⟩ := ht
  rw [isPunct_of_isPunct hs]
  exact beq_eq_false_iff_ne.mpr fun h => absurd (h ▸ hmem) (by decide)

theorem Token.IsStop.continueName? {t : Token} (ht : t.IsStop) (parts : List String) :
    continueName? parts t = none := by
  simp [Php.continueName?, ht.slash, ht.kind]

theorem WritesName.nameOf_eq {ts : List Token} {rooted : Bool} {segments : List String}
    (h : WritesName ts rooted segments) : nameOf (ts.map (·.text)) = written rooted segments :=
  h.text

theorem WritesName.nameOf_ne_empty {ts : List Token} {rooted : Bool} {segments : List String}
    (h : WritesName ts rooted segments) : nameOf (ts.map (·.text)) ≠ "" := by
  rw [h.nameOf_eq, written]
  exact fun hempty => h.isName.joinAll_ne_empty (String.append_eq_empty_iff.mp hempty).2

/-- **A name that is imported under an alias is entered as the import it is**, whatever group it
    stands in. -/
theorem WritesName.addImport {group : String} {start : List String} (hgroup : GroupText group start)
    {ts : List Token} {rooted : Bool} {segments : List String}
    (hname : WritesName ts rooted segments) (hroot : rooted = true → start = []) {i : Import}
    (htarget : i.target = start ++ segments) (scope : Scope) :
    scope.addImport i.short (group ++ nameOf (ts.map (·.text))) = enterImport scope i := by
  refine addImport_of_dropSeparators scope i.short ?_
  rw [hname.nameOf_eq, dropSeparators_import hgroup hname.isName hroot, ← htarget,
    dropSeparators_joinAll i.isName]

theorem SpellsName.concat {first : Bool} {ts : List Token} (h : SpellsName first ts) {slash : Token}
    (hslash : slash.isPunct "\\" = true) : SpellsName first (ts ++ [slash]) := by
  induction h with
  | nil first => exact .separator hslash (.nil true)
  | separator ht _ ih => exact .separator ht ih
  | word ht _ ih => exact .word ht ih

section Runs

variable (path : String) (held : Option Held)

/-- Reading an imported name up to its end. -/
theorem run_importedName (scope : Scope) (group : String) {ts : List Token}
    (hts : SpellsName true ts) {t : Token} (ht : t.kind ≠ .ident) (hslash : t.isPunct "\\" = false)
    (rest : List Token) :
    Walk.run path ⟨scope, .importName held group []⟩ (ts ++ t :: rest) =
      Walk.run path ⟨scope, .importName held group (ts.map (·.text))⟩ (t :: rest) := by
  have hstop : ∀ u ∈ (t :: rest).head?, u.kind ≠ .ident ∧ u.isPunct "\\" = false := by
    rintro u hu
    cases hu
    exact ⟨ht, hslash⟩
  rw [run_readName (.importName held group) (fun parts t more hc => by
    simp only [Walk.step, hc]), readName_append hts (fun _ => rfl) hstop, List.nil_append]

variable {start : List String} {group : String} (hgroup : GroupText group start)

include hgroup

/-- **A clause is read as its import**, which is entered with the sign behind it. -/
theorem run_importClause (scope : Scope) {ts : List Token} {i : Import}
    (hclause : ImportClause start ts i) {t : Token} (ht : t.IsStop) (rest : List Token) :
    ∃ target, (∀ s : Scope, s.addImport i.short target = enterImport s i) ∧
      Walk.run path ⟨scope, .importName held group []⟩ (ts ++ t :: rest) =
        Walk.run path ⟨scope, .importTail held group target i.short⟩ (t :: rest) := by
  cases hclause with
  | @plain _ rooted segments _ hname hroot htarget hshort =>
      refine ⟨_, hname.addImport hgroup hroot htarget, ?_⟩
      have hdefault : i.short = defaultAlias (group ++ nameOf (ts.map (·.text))) := by
        rw [hname.nameOf_eq, defaultAlias_import hgroup hname.isName, hshort]
      rw [run_importedName path held scope group hname.spells (ht.kind_ne (by decide)) ht.slash,
        Walk.run_cons, Walk.run_cons, hdefault]
      simp only [Walk.step, ht.continueName?, endImportName, if_neg hname.nameOf_ne_empty,
        if_neg (ht.kind_ne (by decide : TokenKind.kwAs ≠ .punct))]
  | @renamed us word short rooted segments _ hname hroot hword hkindShort htarget hshort =>
      refine ⟨_, hname.addImport hgroup hroot htarget, ?_⟩
      have hwordStop : word.kind ≠ .ident ∧ word.isPunct "\\" = false := by
        simp [Token.isPunct, hword]
      have hstop : continueName? (us.map (·.text)) word = none := by
        simp [continueName?, hwordStop]
      rw [List.append_assoc, List.cons_append, List.singleton_append,
        run_importedName path held scope group hname.spells hwordStop.1 hwordStop.2,
        Walk.run_cons, hshort]
      simp only [Walk.step, hstop, endImportName, if_neg hname.nameOf_ne_empty, if_pos hword,
        Outcome.behind_nil]
      rw [Walk.run_cons]
      simp only [Walk.step, if_pos hkindShort, Outcome.behind_nil]

/-- **Clauses are read as their imports.** The sign that ends them enters the last one, and leads
    back to ordinary material. -/
theorem run_importClauses {ts : List Token} {imports : List Import}
    (hclauses : ImportClauses start ts imports) {t : Token} (ht : t.IsStop)
    {signs rest : List Token}
    (hend : ∀ s target short, Walk.run path ⟨s, .importTail held group target short⟩ (t :: signs) =
      Walk.run path ⟨s.addImport short target, .scanning held⟩ rest) (scope : Scope) :
    Walk.run path ⟨scope, .importName held group []⟩ (ts ++ t :: signs) =
      Walk.run path ⟨imports.foldl enterImport scope, .scanning held⟩ rest := by
  -- the sign that ends all clauses stays the same; the scope grows with each of them
  induction hclauses generalizing scope with
  | one hclause =>
      obtain ⟨target, henter, hrun⟩ := run_importClause path held hgroup scope hclause ht signs
      rw [hrun, hend, henter]
      rfl
  | @more us vs comma i imports hclause hcomma hmore ih =>
      have hstop := isStop_of_isPunct hcomma (by decide)
      obtain ⟨target, henter, hrun⟩ :=
        run_importClause path held hgroup scope hclause hstop (vs ++ t :: signs)
      have hstep : Walk.step path ⟨scope, .importTail held group target i.short⟩ comma =
          (⟨enterImport scope i, .importName held group []⟩, []) := by
        simp [Walk.step, stepImportTail, isPunct_of_isPunct hcomma, henter]
      rw [List.append_assoc, List.cons_append, hrun, Walk.run_cons, hstep, Outcome.behind_nil,
        ih (enterImport scope i)]
      rfl

omit hgroup

/-- Behind an import at the end of a statement. -/
theorem run_importTail_semicolon {t : Token} (ht : t.isPunct ";" = true) (rest : List Token)
    (s : Scope) (group target short : String) :
    Walk.run path ⟨s, .importTail held group target short⟩ (t :: rest) =
      Walk.run path ⟨s.addImport short target, .scanning held⟩ rest :=
  run_semicolon ht path ⟨s, .importTail held group target short⟩ rest

/-- Behind an import at the end of a group. -/
theorem run_importTail_closing {closing semicolon : Token}
    (hclosing : closing.isPunct "\x7d" = true) (hend : semicolon.isPunct ";" = true)
    (rest : List Token) (s : Scope) (group target short : String) :
    Walk.run path ⟨s, .importTail held group target short⟩ (closing :: semicolon :: rest) =
      Walk.run path ⟨s.addImport short target, .scanning held⟩ rest := by
  have hstep : Walk.step path ⟨s, .importTail held group target short⟩ closing =
      (⟨s.addImport short target, .groupEnd held⟩, []) := by
    simp [Walk.step, stepImportTail, isPunct_of_isPunct hclosing]
  rw [Walk.run_cons, hstep, Outcome.behind_nil]
  exact run_semicolon hend path ⟨s.addImport short target, .groupEnd held⟩ rest

/-- Behind an import with a comma at the end of a group: no name follows, and the signs are passed
    over. -/
theorem run_importTail_comma {comma closing semicolon : Token} (hcomma : comma.isPunct "," = true)
    (hclosing : closing.isPunct "\x7d" = true) (hend : semicolon.isPunct ";" = true)
    (rest : List Token) (s : Scope) (group target short : String) :
    Walk.run path ⟨s, .importTail held group target short⟩ (comma :: closing :: semicolon :: rest) =
      Walk.run path ⟨s.addImport short target, .scanning held⟩ rest := by
  have hstop := isStop_of_isPunct hclosing (by decide)
  have hcommaStep : Walk.step path ⟨s, .importTail held group target short⟩ comma =
      (⟨s.addImport short target, .importName held group []⟩, []) := by
    simp [Walk.step, stepImportTail, isPunct_of_isPunct hcomma]
  have hclosingStep : Walk.step path ⟨s.addImport short target, .importName held group []⟩ closing =
      (⟨s.addImport short target, .scanning held⟩, []) := by
    have hnone : nameOf [] = "" := rfl
    simp only [Walk.step, hstop.continueName?, endImportName, if_pos hnone, scan, hstop.kind]
  rw [Walk.run_cons, hcommaStep, Outcome.behind_nil, Walk.run_cons, hclosingStep,
    Outcome.behind_nil]
  exact run_semicolon hend path ⟨s.addImport short target, .scanning held⟩ rest

/-- The start of a group. -/
theorem run_groupStart (scope : Scope) {front : List Token} {rooted : Bool} {start : List String}
    (hfront : WritesName front rooted start) {slash opening : Token}
    (hslash : slash.isPunct "\\" = true) (hopening : opening.isPunct "\x7b" = true)
    (rest : List Token) :
    Walk.run path ⟨scope, .importName held "" []⟩ (front ++ slash :: opening :: rest) =
      Walk.run path ⟨scope, .importName held (written rooted start ++ "\\") []⟩ rest := by
  have hstop := isStop_of_isPunct hopening (by decide)
  have has : opening.kind ≠ .kwAs := hstop.kind_ne (by decide)
  have htext : nameOf ((front ++ [slash]).map (·.text)) = written rooted start ++ "\\" := by
    have hsign : slash.text = "\\" := by
      simp only [Token.isPunct, Bool.and_eq_true, beq_iff_eq] at hslash
      exact hslash.2
    rw [List.map_append, List.map_singleton, hsign, nameOf, String.join_append,
      ← hfront.nameOf_eq]
    rfl
  have hne : nameOf ((front ++ [slash]).map (·.text)) ≠ "" := by
    rw [htext]
    exact fun hempty => absurd (String.append_eq_empty_iff.mp hempty).2 (by decide)
  have hstart : groupStart (written rooted start ++ "\\") = written rooted start ++ "\\" := by
    refine if_pos ?_
    rw [String.toList_append]
    exact List.getLast?_concat
  have hstep :
      Walk.step path ⟨scope, .importName held "" ((front ++ [slash]).map (·.text))⟩ opening =
        (⟨scope, .importName held (written rooted start ++ "\\") []⟩, []) := by
    rw [Walk.step]
    simp only [hstop.continueName?, endImportName, if_neg hne, if_neg has, stepImportTail,
      hopening, if_true]
    rw [htext, String.empty_append, hstart]
  have hassoc : front ++ slash :: opening :: rest = (front ++ [slash]) ++ opening :: rest := by
    rw [List.append_assoc, List.singleton_append]
  rw [hassoc, run_importedName path held scope "" (hfront.spells.concat hslash)
    (hstop.kind_ne (by decide)) hstop.slash, Walk.run_cons, hstep, Outcome.behind_nil]

/-- **A statement enters its imports**, and keeps the comment that is held. -/
theorem run_useStatement (scope : Scope) {ts : List Token} {imports : List Import}
    (huse : UseStatement ts imports) (rest : List Token) :
    Walk.run path ⟨scope, .scanning held⟩ (ts ++ rest) =
      Walk.run path ⟨imports.foldl enterImport scope, .scanning held⟩ rest := by
  have hopen : ∀ {use : Token}, use.kind = .kwUse → ∀ us : List Token,
      Walk.run path ⟨scope, .scanning held⟩ (use :: us) =
        Walk.run path ⟨scope, .importName held "" []⟩ us := by
    intro use hkind us
    rw [Walk.run_cons]
    simp only [Walk.step, scan, hkind, Outcome.behind_nil]
  cases huse with
  | @list use semicolon us _ hkind hclauses hend =>
      rw [List.cons_append, List.append_assoc, List.singleton_append, hopen hkind]
      exact run_importClauses path held .none hclauses (isStop_of_isPunct hend (by decide))
        (fun s target short => run_importTail_semicolon path held hend rest s "" target short) scope
  | @group use slash opening closing semicolon front us comma rooted start _ hkind hfront hslash
      hopening hclauses hcomma hclosing hend =>
      have hgroup := GroupText.group rooted hfront.isName
      have hassoc : front ++ slash :: opening :: (us ++ (comma ++ [closing, semicolon])) ++ rest =
          front ++ slash :: opening :: (us ++ (comma ++ closing :: semicolon :: rest)) := by
        simp only [List.append_assoc, List.cons_append, List.nil_append]
      rw [List.cons_append, hassoc, hopen hkind,
        run_groupStart path held scope hfront hslash hopening]
      rcases hcomma with rfl | ⟨t, rfl, ht⟩
      · exact run_importClauses path held hgroup hclauses (isStop_of_isPunct hclosing (by decide))
          (fun s target short =>
            run_importTail_closing path held hclosing hend rest s _ target short) scope
      · exact run_importClauses path held hgroup hclauses (isStop_of_isPunct ht (by decide))
          (fun s target short =>
            run_importTail_comma path held ht hclosing hend rest s _ target short) scope

/-- The word for a namespace, a name, which may be missing, and a sign. -/
theorem run_namespaceNamed (scope : Scope) {word sign : Token} {ts : List Token}
    (hword : word.kind = .kwNamespace) (hts : SpellsName true ts) (hsign : sign.IsStop)
    (rest : List Token) :
    Walk.run path ⟨scope, .scanning held⟩ (word :: (ts ++ sign :: rest)) =
      Walk.run path ⟨{ scope with namespaceName := nameText ts }, .scanning held⟩ rest := by
  have hstop : ∀ u ∈ (sign :: rest).head?, u.kind ≠ .ident ∧ u.isPunct "\\" = false := by
    rintro u hu
    cases hu
    exact ⟨hsign.kind_ne (by decide), hsign.slash⟩
  have hopen : Walk.run path ⟨scope, .scanning held⟩ (word :: (ts ++ sign :: rest)) =
      Walk.run path ⟨scope, .namespaceName held []⟩ (ts ++ sign :: rest) := by
    rw [Walk.run_cons]
    simp only [Walk.step, scan, hword, Outcome.behind_nil]
  have hpunct : ∀ t ∈ [sign], t.kind = .punct ∨ t.kind = .kwAbstract :=
    fun t ht => .inl (List.mem_singleton.mp ht ▸ hsign.kind)
  rw [hopen, run_namespaceName, readName_append hts (fun _ => rfl) hstop, List.nil_append]
  exact run_signs path _ hpunct held rest

/-- The declaration of a namespace puts it into the scope, and keeps the comment. -/
theorem run_namespaceStatement (scope : Scope) {ts : List Token} {segments : List String}
    (hspace : NamespaceStatement ts segments) (rest : List Token) :
    Walk.run path ⟨scope, .scanning held⟩ (ts ++ rest) =
      Walk.run path ⟨{ scope with namespaceName := joinAll segments }, .scanning held⟩ rest := by
  cases hspace with
  | @named word sign us _ hword hname hsign =>
      have hstop : sign.IsStop :=
        hsign.elim (isStop_of_isPunct · (by decide)) (isStop_of_isPunct · (by decide))
      rw [List.cons_append, List.append_assoc, List.singleton_append,
        run_namespaceNamed path held scope hword hname.spells hstop, hname.text, written_false]
  | outer hword hsign =>
      exact run_namespaceNamed path held scope hword (.nil true)
        (isStop_of_isPunct hsign (by decide)) rest

/-- **Statements are entered one after another**, and keep the comment that is held. -/
theorem run_preamble (scope : Scope) {ts : List Token} {statements : List Statement}
    (hts : Preamble ts statements) (rest : List Token) :
    Walk.run path ⟨scope, .scanning held⟩ (ts ++ rest) =
      Walk.run path ⟨statements.foldl Statement.enter scope, .scanning held⟩ rest := by
  induction hts generalizing scope with
  | nil => rfl
  | space hspace hmore ih =>
      rw [List.append_assoc, run_namespaceStatement path held scope hspace, ih]
      rfl
  | use huse hmore ih =>
      rw [List.append_assoc, run_useStatement path held scope huse, ih]
      rfl

end Runs

/-! ## 5. The scope behind statements -/

theorem namespaceName_enterImport (imports : List Import) (scope : Scope) :
    (imports.foldl enterImport scope).namespaceName = scope.namespaceName := by
  induction imports generalizing scope with
  | nil => rfl
  | cons i imports ih => exact ih (enterImport scope i)

theorem imports_enterImport (imports : List Import) (scope : Scope) :
    (imports.foldl enterImport scope).imports = imports.foldl Imports.enter scope.imports := by
  induction imports generalizing scope with
  | nil => rfl
  | cons i imports ih => exact ih (enterImport scope i)

/-- **The last namespace that is declared is in force**, … -/
theorem namespaceName_enter (statements : List Statement) (scope : Scope) :
    (statements.foldl Statement.enter scope).namespaceName =
      ((statements.filterMap Statement.space?).getLast?.map joinAll).getD scope.namespaceName := by
  induction statements generalizing scope with
  | nil => rfl
  | cons statement statements ih =>
      rw [List.foldl_cons, ih]
      cases statement with
      | space segments =>
          have hspace : (Statement.space segments :: statements).filterMap Statement.space? =
              segments :: statements.filterMap Statement.space? := rfl
          rw [hspace, List.getLast?_cons]
          cases (statements.filterMap Statement.space?).getLast? <;> rfl
      | use imports =>
          show (Option.map joinAll _).getD (imports.foldl enterImport scope).namespaceName = _
          rw [namespaceName_enterImport]
          rfl

/-- … and so are all imports. -/
theorem imports_enter (statements : List Statement) (scope : Scope) :
    (statements.foldl Statement.enter scope).imports =
      (importsOf statements).foldl Imports.enter scope.imports := by
  induction statements generalizing scope with
  | nil => rfl
  | cons statement statements ih =>
      rw [List.foldl_cons, ih, importsOf, importsOf, List.flatMap_cons, List.foldl_append]
      cases statement with
      | space segments => rfl
      | use imports =>
          have hstep := imports_enterImport imports scope
          exact congrArg (List.foldl Imports.enter · (statements.flatMap Statement.imports)) hstep

theorem namespaceName_initial (statements : List Statement) :
    (statements.foldl Statement.enter .initial).namespaceName = joinAll (spaceOf statements) := by
  rw [namespaceName_enter, spaceOf]
  cases (statements.filterMap Statement.space?).getLast? <;> rfl

theorem NamespaceStatement.proper {ts : List Token} {segments : List String}
    (h : NamespaceStatement ts segments) : ∀ s ∈ segments, IsSegment s := by
  cases h with
  | named _ hname _ => exact hname.isName.proper
  | outer => exact fun _ hs => absurd hs List.not_mem_nil

theorem Preamble.append {ts us : List Token} {xs ys : List Statement} (hts : Preamble ts xs)
    (hus : Preamble us ys) : Preamble (ts ++ us) (xs ++ ys) := by
  induction hts with
  | nil => exact hus
  | space hspace _ ih =>
      rw [List.append_assoc]
      exact .space hspace ih
  | use huse _ ih =>
      rw [List.append_assoc]
      exact .use huse ih

theorem Preamble.proper_spaceOf {ts : List Token} {statements : List Statement}
    (h : Preamble ts statements) : ∀ s ∈ spaceOf statements, IsSegment s := by
  have hall : ∀ segments ∈ statements.filterMap Statement.space?, ∀ s ∈ segments, IsSegment s := by
    induction h with
    | nil => exact fun _ hs => absurd hs List.not_mem_nil
    | use _ _ ih => exact ih
    | space hspace _ ih => exact List.forall_mem_cons.mpr ⟨hspace.proper, ih⟩
  unfold spaceOf
  cases hlast : (statements.filterMap Statement.space?).getLast? with
  | none => exact fun _ hs => absurd hs List.not_mem_nil
  | some segments => exact hall segments (List.mem_of_getLast? hlast)

/-! ## 6. The main statement -/

/-- Behind statements, and whatever stands in front of them where nothing is held, the scope is the
    one that they declare. -/
theorem runFrom_preamble (path : String) {tags ts : List Token}
    (htags : ∀ t ∈ tags, t.kind = .other) {statements : List Statement}
    (hts : Preamble ts statements) :
    runFrom path .initial (tags ++ ts) =
      (⟨statements.foldl Statement.enter .initial, .scanning none⟩, []) := by
  have hidle : ∀ t ∈ tags, t.IsIdle := by
    intro t ht
    unfold Token.IsIdle
    rw [htags t ht]
    decide
  have hrun := run_preamble path none .initial hts []
  rw [List.append_nil] at hrun
  exact (run_idle path .initial hidle ts).trans hrun

/-- What a class with a parent takes its comment with, behind statements. -/
theorem attachment_behind_preamble (path : String) {ts parent : List Token}
    {statements : List Statement} (hts : Preamble ts statements) {rooted : Bool}
    {segments : List String} (hparent : WritesName parent rooted segments) (c : Token)
    (name : String) (isStatic : Bool) :
    let here := statements.foldl Statement.enter .initial
    let space := spaceOf statements
    let full := joinAll (space ++ [name])
    (Declared.type name (some (nameText parent))).attachment path here isStatic c =
      { comment := c.text
        location := full ++ " in " ++ (path ++ " on line " ++ natText c.line)
        target := .type full
          (some (joinAll (referent space (importsOf statements) rooted segments)))
        aliases := here.annotationImports.entries } := by
  intro here space full
  have hspace : here.namespaceName = joinAll space := namespaceName_initial statements
  have himports : here.imports = (importsOf statements).foldl Imports.enter .empty :=
    imports_enter statements .initial
  have hfull : here.qualify name = full := qualify_joinAll hts.proper_spaceOf hspace name
  have hkeep : (some (nameText parent)).filter (· ≠ "") = some (nameText parent) := by
    have hne : nameText parent ≠ "" := hparent.nameOf_ne_empty
    simp [Option.filter, hne]
  have hmeant : here.resolve (nameText parent) =
      joinAll (referent space (importsOf statements) rooted segments) := by
    rw [hparent.text]
    exact resolve_written hts.proper_spaceOf hspace himports rooted hparent.isName
  simp only [Declared.attachment, Declared.label, Declared.target, hkeep, Option.map_some, hfull,
    hmeant]

/-- **A class and its parent are called by their full names.** A file opens with statements that
    declare its namespace and its imports. A comment stands in front of them, between two of them or
    behind them, and then a class with a parent. The comment is let go first, at the class, whose
    full name is the namespace with its own name behind it. Its parent is what the name of the
    parent refers to: itself if it is rooted, what the last import under its head stands for, with
    the other segments behind it, and a name of the namespace if there is no such import. The pass
    with a cursor does the same, whichever way its flag for static members is set. -/
theorem class_and_parent_in_full (path : String) (tags before after parent rest : List Token)
    (c cls name ext opening : Token) (xs ys : List Statement) (rooted : Bool)
    (segments : List String) (htags : ∀ t ∈ tags, t.kind = .other) (hbefore : Preamble before xs)
    (hc : c.kind = .docComment) (hafter : Preamble after ys) (hcls : cls.kind = .kwClass)
    (hname : name.kind = .ident) (hext : ext.kind = .kwExtends)
    (hparent : WritesName parent rooted segments) (hopening : opening.isPunct "\x7b" = true) :
    let tokens :=
      tags ++ before ++ c :: (after ++ (cls :: name :: ext :: parent ++ opening :: rest))
    let space := spaceOf (xs ++ ys)
    let full := joinAll (space ++ [name.text])
    ∃ a more, attachments path tokens = a :: more ∧ a.comment = c.text ∧
      a.location = full ++ " in " ++ (path ++ " on line " ++ natText c.line) ∧
      a.target = .type full
        (some (joinAll (referent space (importsOf (xs ++ ys)) rooted segments))) ∧
      ∀ isStatic, ∃ last,
        Pass.run path ⟨.initial, .scanning, none, isStatic⟩ tokens = .ok (last, a :: more) := by
  intro tokens space full
  have hstop := isStop_of_isPunct hopening (by decide)
  have hends : (Declared.type name.text (some (nameText parent))).EndsBefore (opening :: rest) :=
    ⟨hstop.kind_ne (by decide), hstop.kind_ne (by decide), hstop.slash⟩
  have hne : parent ≠ [] := fun hnil => hparent.nameOf_ne_empty (by rw [hnil]; rfl)
  have hheader := Header.subtype hcls hname hext hparent.spells hne
  have hrun := runFrom_append_comment path .initial (tags ++ before) hc
    (after ++ (cls :: name :: ext :: parent ++ opening :: rest))
  rw [runFrom_preamble path htags hbefore, Outcome.behind_nil, run_preamble path _ _ hafter,
    ← List.foldl_append, run_header path _ c hheader hends,
    attachment_behind_preamble path (hbefore.append hafter) hparent] at hrun
  refine ⟨_, _, congrArg Prod.snd hrun, rfl, rfl, rfl, fun isStatic => ?_⟩
  obtain ⟨last, hlast, -⟩ := Pass.run_from path .initial isStatic tokens
  exact ⟨last, hlast.trans (congrArg (fun o : Outcome => Except.ok (last, o.2)) hrun)⟩

/-- A name in one word. -/
theorem writesName_word (line : Nat) {text : String} (segments : List String)
    (htext : text = joinAll segments) (hname : IsName segments) :
    WritesName [⟨.ident, text, line⟩] false segments where
  spells := .word rfl (.nil false)
  text := (nameOf_singleton text).trans (htext.trans (written_false segments).symm)
  isName := hname

/-- A namespace, a rooted group with a comma at its end, and behind the comment another import under
    the alias that the group has given, in capitals: that one counts. -/
theorem parent_in_full_by_last_import :
    (⟨.punct, "\x7b", 6⟩ : Token).isPunct "\x7b" = true ∧
      ∃ a more, attachments "pets.php"
          [⟨.other, "<?php", 1⟩, ⟨.kwNamespace, "namespace", 2⟩, ⟨.ident, "App\\Models", 2⟩,
            ⟨.punct, ";", 2⟩, ⟨.kwUse, "use", 3⟩, ⟨.punct, "\\", 3⟩, ⟨.ident, "Vendor", 3⟩,
            ⟨.punct, "\\", 3⟩, ⟨.punct, "\x7b", 3⟩, ⟨.ident, "Db", 3⟩, ⟨.punct, ",", 3⟩,
            ⟨.ident, "Orm\\Base", 3⟩, ⟨.kwAs, "as", 3⟩, ⟨.ident, "Entity", 3⟩, ⟨.punct, ",", 3⟩,
            ⟨.punct, "\x7d", 3⟩, ⟨.punct, ";", 3⟩, ⟨.docComment, "/** pet */", 4⟩,
            ⟨.kwUse, "use", 5⟩, ⟨.ident, "Other\\Thing", 5⟩, ⟨.kwAs, "as", 5⟩,
            ⟨.ident, "ENTITY", 5⟩, ⟨.punct, ";", 5⟩, ⟨.kwClass, "class", 6⟩, ⟨.ident, "Pet", 6⟩,
            ⟨.kwExtends, "extends", 6⟩, ⟨.ident, "entity\\Root", 6⟩, ⟨.punct, "\x7b", 6⟩] =
          a :: more ∧
        a.location = "App\\Models\\Pet in pets.php on line 4" ∧
        a.target = .type "App\\Models\\Pet" (some "Other\\Thing\\Root") := by
  have hspace : NamespaceStatement (⟨.kwNamespace, "namespace", 2⟩ ::
      ([⟨.ident, "App\\Models", 2⟩] ++ [⟨.punct, ";", 2⟩])) ["App", "Models"] :=
    .named rfl (writesName_word 2 _ rfl (by decide +kernel)) (.inl rfl)
  have hfront : WritesName [⟨.punct, "\\", 3⟩, ⟨.ident, "Vendor", 3⟩] true ["Vendor"] :=
    ⟨.separator rfl (.word rfl (.nil false)), rfl, by decide +kernel⟩
  have hdb : ImportClause ["Vendor"] [⟨.ident, "Db", 3⟩]
      ⟨["Vendor", "Db"], "Db", by decide +kernel⟩ :=
    .plain (writesName_word 3 ["Db"] rfl (by decide +kernel)) (by decide) rfl rfl
  have hbase : ImportClause ["Vendor"]
      ([⟨.ident, "Orm\\Base", 3⟩] ++ [⟨.kwAs, "as", 3⟩, ⟨.ident, "Entity", 3⟩])
      ⟨["Vendor", "Orm", "Base"], "Entity", by decide +kernel⟩ :=
    .renamed (writesName_word 3 ["Orm", "Base"] rfl (by decide +kernel)) (by decide) rfl rfl rfl rfl
  have hthing : ImportClause []
      ([⟨.ident, "Other\\Thing", 5⟩] ++ [⟨.kwAs, "as", 5⟩, ⟨.ident, "ENTITY", 5⟩])
      ⟨["Other", "Thing"], "ENTITY", by decide +kernel⟩ :=
    .renamed (writesName_word 5 ["Other", "Thing"] rfl (by decide +kernel)) (by decide) rfl rfl rfl
      rfl
  have hclauses := @ImportClauses.more _ _ _ ⟨.punct, ",", 3⟩ _ _ hdb rfl (.one hbase)
  have hgroup := @UseStatement.group ⟨.kwUse, "use", 3⟩ ⟨.punct, "\\", 3⟩ ⟨.punct, "\x7b", 3⟩
    ⟨.punct, "\x7d", 3⟩ ⟨.punct, ";", 3⟩ _ _ _ _ _ _ rfl hfront rfl rfl hclauses
    (.inr ⟨⟨.punct, ",", 3⟩, rfl, rfl⟩) rfl rfl
  have huse := @UseStatement.list ⟨.kwUse, "use", 5⟩ ⟨.punct, ";", 5⟩ _ _ rfl (.one hthing) rfl
  obtain ⟨a, more, hall, -, hlocation, htarget, -⟩ := class_and_parent_in_full "pets.php"
    [⟨.other, "<?php", 1⟩] _ _ _ [] ⟨.docComment, "/** pet */", 4⟩ ⟨.kwClass, "class", 6⟩
    ⟨.ident, "Pet", 6⟩ ⟨.kwExtends, "extends", 6⟩ ⟨.punct, "\x7b", 6⟩ _ _ false ["entity", "Root"]
    (by decide) (.space hspace (.use hgroup .nil)) rfl (.use huse .nil) rfl rfl rfl
    (writesName_word 6 _ rfl (by decide +kernel)) rfl
  exact ⟨rfl, a, more, hall, hlocation.trans (by decide +kernel), htarget.trans (by decide +kernel)⟩

end Marginalia.Php

import Marginalia.Proofs.Outline.Segments

/-!
# Annotations do not see foreign imports

A file imports classes for its own purposes, and some of them under names that annotations use. Only
imports that lead into the annotation vendor's namespace may have a say in what annotations mean.

* `Scope.asSeen`: a scope without the class imports and without the parent class, which is all that
  class imports have a say in. `run_congr`: passes from scopes that look alike in this way let the
  same comments go, with the same aliases and at the same targets, up to the parent of a class;
* `run_importStatement`: a statement that imports one name does nothing but enter it, so that
  a foreign one leaves the scope looking as it did (`foreign_import_unseen`);
* `step_sees`: the aliases handed out with a comment are those of the scope, which grow by imports
  into the vendor's namespace and by nothing else (`OnlyNotes`).
-/

namespace Marginalia

/-! ## 1. What annotations see -/

/-- A scope as annotations see it: the namespace, the current class and the aliases for
    annotations. -/
def Scope.asSeen (s : Scope) : Scope := { s with imports := .empty, parentType := none }

/-- A target without the parent of a class. -/
def Target.withoutParent : Target → Target
  | .type fullName _ => .type fullName none
  | target => target

namespace Php

/-- A comment that is let go, without the parent of the class that it stands at. -/
def Attachment.withoutParent (a : Attachment) : Attachment :=
  { a with target := a.target.withoutParent }

/-- A state of the pass as annotations see it. -/
def Walk.asSeen (w : Walk) : Walk := ⟨w.scope.asSeen, w.mode⟩

/-- An outcome as annotations see it. -/
def Outcome.asSeen (o : Outcome) : Outcome := (o.1.asSeen, o.2.map (·.withoutParent))

theorem Outcome.asSeen_behind (released : List Attachment) (o : Outcome) :
    (o.behind released).asSeen = o.asSeen.behind (released.map (·.withoutParent)) :=
  Prod.ext rfl List.map_append

theorem Outcome.asSeen_after {a b : Attachment} {o p : Outcome}
    (ha : a.withoutParent = b.withoutParent) (ho : o.asSeen = p.asSeen) :
    (Outcome.after a o).asSeen = (Outcome.after b p).asSeen := by
  show (o.asSeen.1, a.withoutParent :: o.asSeen.2) = (p.asSeen.1, b.withoutParent :: p.asSeen.2)
  rw [ha, ho]

/-! ## 2. Scopes that look alike -/

section Alike

variable (path : String) {s s' : Scope} (hs : s.asSeen = s'.asSeen)

include hs

theorem scan_congr (held : Option Held) (t : Token) :
    (scan path s held t).asSeen = (scan path s' held t).asSeen := by
  obtain ⟨n, imports, aliases, type, parent⟩ := s
  obtain ⟨n', imports', aliases', type', parent'⟩ := s'
  cases hs
  unfold scan
  cases t.kind <;> cases held <;> rfl

theorem addImport_congr (short target : String) :
    (s.addImport short target).asSeen = (s'.addImport short target).asSeen := by
  obtain ⟨n, imports, aliases, type, parent⟩ := s
  obtain ⟨n', imports', aliases', type', parent'⟩ := s'
  cases hs
  rfl

/-- The parent of a class is not seen. -/
theorem setParent_congr (parts : List String) :
    (setParent s parts).asSeen = (setParent s' parts).asSeen := by
  have hset : ∀ r : Scope, (setParent r parts).asSeen = r.asSeen := by
    intro r
    unfold setParent
    split
    · rfl
    · rfl
  rw [hset, hset, hs]

theorem atType_congr (h : Held) :
    (h.atType path s).withoutParent = (h.atType path s').withoutParent := by
  obtain ⟨n, imports, aliases, type, parent⟩ := s
  obtain ⟨n', imports', aliases', type', parent'⟩ := s'
  cases hs
  rfl

theorem stepImportTail_congr (held : Option Held) (group target short : String) (t : Token) :
    (stepImportTail path s held group target short t).asSeen =
      (stepImportTail path s' held group target short t).asSeen := by
  have hadd := addImport_congr hs short target
  unfold stepImportTail
  dsimp only
  split
  · exact Prod.ext (congrArg (Walk.mk · _) hs) rfl
  split
  · exact Prod.ext (congrArg (Walk.mk · _) hadd) rfl
  split
  · exact Prod.ext (congrArg (Walk.mk · _) hadd) rfl
  · exact scan_congr path hadd held t

theorem endImportName_congr (held : Option Held) (group : String) (parts : List String)
    (t : Token) :
    (endImportName path s held group parts t).asSeen =
      (endImportName path s' held group parts t).asSeen := by
  unfold endImportName
  dsimp only
  split
  · exact scan_congr path hs held t
  split
  · exact Prod.ext (congrArg (Walk.mk · _) hs) rfl
  · exact stepImportTail_congr path hs held group _ _ t

end Alike

/-- **One token does the same** in states that look alike. -/
theorem step_congr (path : String) {w w' : Walk} (hw : w.asSeen = w'.asSeen) (t : Token) :
    (w.step path t).asSeen = (w'.step path t).asSeen := by
  obtain ⟨⟨n, imports, aliases, type, parent⟩, mode⟩ := w
  obtain ⟨⟨n', imports', aliases', type', parent'⟩, mode'⟩ := w'
  -- only imports and parent are left to differ, and no mode looks at them
  cases hw
  cases mode with
  | scanning held => exact scan_congr path (by rfl) held t
  | typeHeader held =>
      simp only [Walk.step]
      split
      · cases held <;> rfl
      · exact scan_congr path (by rfl) held t
  | typeNamed h =>
      simp only [Walk.step]
      split
      · rfl
      · exact Outcome.asSeen_after rfl (scan_congr path (by rfl) none t)
  | parentName h parts =>
      simp only [Walk.step]
      split
      · rfl
      · have hlook : Scope.asSeen ⟨n, imports, aliases, type, parent⟩ =
            Scope.asSeen ⟨n, imports', aliases, type, parent'⟩ := rfl
        have hparent := setParent_congr hlook parts
        exact Outcome.asSeen_after (atType_congr path hparent h) (scan_congr path hparent none t)
  | member h isStatic =>
      simp only [Walk.step]
      split
      · rfl
      split
      · rfl
      split
      · rfl
      split
      · rfl
      · exact scan_congr path (by rfl) (some h) t
  | staticMember h =>
      simp only [Walk.step]
      split
      · rfl
      split
      · rfl
      split
      · rfl
      split
      · rfl
      · exact scan_congr path (by rfl) (some h) t
  | methodName h byReference =>
      simp only [Walk.step]
      split
      · rfl
      split
      · rfl
      · exact Outcome.asSeen_after rfl (scan_congr path (by rfl) none t)
  | namespaceName held parts =>
      simp only [Walk.step]
      split
      · rfl
      · exact scan_congr path (by rfl) held t
  | importName held group parts =>
      simp only [Walk.step]
      split
      · rfl
      · exact endImportName_congr path (by rfl) held group parts t
  | importAlias held group target =>
      simp only [Walk.step]
      split
      · rfl
      · exact scan_congr path (by rfl) held t
  | importTail held group target short =>
      exact stepImportTail_congr path (by rfl) held group target short t
  | groupEnd held =>
      simp only [Walk.step]
      split
      · rfl
      · exact scan_congr path (by rfl) held t

/-- The end of the source does what a comment does. -/
theorem finish_congr (path : String) {w w' : Walk} (hw : w.asSeen = w'.asSeen) :
    (w.finish path).asSeen = (w'.finish path).asSeen := by
  have hstep := step_congr path hw ⟨.docComment, "", 0⟩
  rw [step_comment rfl, step_comment rfl] at hstep
  exact congrArg (fun o : Outcome => (Walk.mk o.1.scope (.scanning none), o.2)) hstep

/-- **The pass does the same** from states that look alike. -/
theorem run_congr (path : String) {w w' : Walk} (hw : w.asSeen = w'.asSeen) (ts : List Token) :
    (w.run path ts).asSeen = (w'.run path ts).asSeen := by
  induction ts generalizing w w' with
  | nil => exact finish_congr path hw
  | cons t ts ih =>
      have hstep := step_congr path hw t
      rw [Walk.run_cons, Walk.run_cons, Outcome.asSeen_behind, Outcome.asSeen_behind,
        ih (congrArg Prod.fst hstep)]
      exact congrArg (Outcome.behind · _) (congrArg Prod.snd hstep)

/-! ## 3. Statements -/

theorem isPunct_of_isPunct {t : Token} {sign other : String} (h : t.isPunct sign = true) :
    t.isPunct other = (sign == other) := by
  simp only [Token.isPunct, Bool.and_eq_true, decide_eq_true_eq, beq_iff_eq] at h
  simp only [Token.isPunct, h.1, h.2, decide_true, Bool.true_and]

section Semicolon

variable {t : Token} (ht : t.isPunct ";" = true)

include ht

theorem ends_of_semicolon : t.Ends where
  sign s hs := by
    rw [isPunct_of_isPunct ht]
    exact beq_eq_false_iff_ne.mpr fun h => absurd (h ▸ hs) (by decide)
  word k hk h := by
    rw [← h, kind_of_isPunct ht] at hk
    exact absurd hk (by decide)
  modifier := by simp [isModifier, kind_of_isPunct ht, TokenKind.isVisibility]
  material := by
    have htext : t.text = ";" := by
      simp only [Token.isPunct, Bool.and_eq_true, beq_iff_eq] at ht
      exact ht.2
    simp [isTypeMaterial, kind_of_isPunct ht, htext]

theorem scan_semicolon (path : String) (scope : Scope) (held : Option Held) :
    scan path scope held t = (⟨scope, .scanning held⟩, []) := by
  simp only [scan, kind_of_isPunct ht]

/-- Whatever is being read is over before a semicolon, and behind it stands ordinary material. -/
theorem run_semicolon (path : String) (w : Walk) (ts : List Token) :
    w.run path (t :: ts) =
      (Walk.run path ⟨w.finalScope, .scanning (w.ended path).1⟩ ts).behind (w.ended path).2 := by
  rw [Walk.run_cons, step_ends (ends_of_semicolon ht), scan_semicolon ht]
  show Outcome.behind ((w.ended path).2 ++ []) _ = _
  rw [List.append_nil]
  rfl

end Semicolon

/-- **A statement that imports one name**, with the name and its alias: the one that is given to it,
    or else the last segment of the name. -/
inductive ImportStatement : List Token → (target short : String) → Prop
  | plain {use name semicolon : Token} (huse : use.kind = .kwUse) (hname : name.kind = .ident)
      (hne : name.text ≠ "") (hend : semicolon.isPunct ";" = true) :
      ImportStatement [use, name, semicolon] name.text (defaultAlias name.text)
  | renamed {use name given short semicolon : Token} (huse : use.kind = .kwUse)
      (hname : name.kind = .ident) (hne : name.text ≠ "") (hgiven : given.kind = .kwAs)
      (hshort : short.kind = .ident) (hend : semicolon.isPunct ";" = true) :
      ImportStatement [use, name, given, short, semicolon] name.text short.text

/-- The first word of a name. -/
theorem continueName?_first {name : Token} (h : name.kind = .ident) :
    continueName? [] name = some [name.text] := by
  have hslash : name.isPunct "\\" = false := by simp [Token.isPunct, h]
  simp [continueName?, hslash, h]

theorem nameOf_singleton (name : String) : nameOf [name] = name := by
  show "" ++ name = name
  rw [String.empty_append]

/-- **An import statement enters its name** and does nothing else. -/
theorem run_importStatement (path : String) (scope : Scope) (held : Option Held)
    {u : List Token} {target short : String} (hu : ImportStatement u target short)
    (ts : List Token) :
    Walk.run path ⟨scope, .scanning held⟩ (u ++ ts) =
      Walk.run path ⟨scope.addImport short target, .scanning held⟩ ts := by
  have hword : ∀ {use name : Token}, use.kind = .kwUse → name.kind = .ident → ∀ rest,
      Walk.run path ⟨scope, .scanning held⟩ (use :: name :: rest) =
        Walk.run path ⟨scope, .importName held "" [name.text]⟩ rest := by
    intro use name huse hname rest
    rw [Walk.run_cons, Walk.run_cons]
    simp only [Walk.step, scan, huse, continueName?_first hname, Outcome.behind_nil]
  cases hu with
  | @plain use name semicolon huse hname hne hend =>
      have hfinal : Walk.finalScope ⟨scope, .importName held "" [name.text]⟩ =
          scope.addImport (defaultAlias name.text) name.text := by
        simp only [Walk.finalScope, nameOf_singleton, if_neg hne, String.empty_append]
      show Walk.run path _ (use :: name :: semicolon :: ts) = _
      rw [hword huse hname, run_semicolon hend, hfinal]
      rfl
  | @renamed use name given shortName semicolon huse hname hne hgiven hshort hend =>
      have hstop : continueName? [name.text] given = none := by
        simp [continueName?, Token.isPunct, hgiven]
      have hnamed : Walk.step path ⟨scope, .importName held "" [name.text]⟩ given =
          (⟨scope, .importAlias held "" name.text⟩, []) := by
        simp only [Walk.step, hstop, endImportName, nameOf_singleton, if_neg hne, if_pos hgiven,
          String.empty_append]
      have htail : Walk.step path ⟨scope, .importAlias held "" name.text⟩ shortName =
          (⟨scope, .importTail held "" name.text shortName.text⟩, []) := if_pos hshort
      show Walk.run path _ (use :: name :: given :: shortName :: semicolon :: ts) = _
      rw [hword huse hname, Walk.run_cons, hnamed, Walk.run_cons, htail, run_semicolon hend]
      rfl

/-! ## 4. The aliases for annotations -/

/-- **What an outcome does with the aliases for annotations**: they stay as they were or grow by one
    that leads into the vendor's namespace, and whatever is let go is handed the aliases of that
    moment. -/
structure Outcome.Sees (s : Scope) (o : Outcome) : Prop where
  grows : o.1.scope.annotationImports = s.annotationImports ∨
    ∃ short target, Scope.leadsToNotes target = true ∧
      o.1.scope.annotationImports = s.annotationImports.add short target
  released : ∀ a ∈ o.2, a.aliases = o.1.scope.annotationImports.entries

theorem scope_scan (path : String) (s : Scope) (held : Option Held) (t : Token) :
    (scan path s held t).1.scope = s := by
  unfold scan
  cases t.kind <;> cases held <;> rfl

theorem aliases_flush {path : String} {s : Scope} {held : Option Held} {a : Attachment}
    (ha : a ∈ flush path s held) : a.aliases = s.annotationImports.entries := by
  cases held with
  | none => cases ha
  | some h =>
      cases List.mem_singleton.mp ha
      rfl

theorem aliases_scan {path : String} {s : Scope} {held : Option Held} {t : Token} {a : Attachment}
    (ha : a ∈ (scan path s held t).2) : a.aliases = s.annotationImports.entries := by
  have hflush : a ∈ flush path s held := by
    revert ha
    unfold scan
    cases t.kind <;> cases held <;> simp [flush, TokenKind.isVisibility]
  exact aliases_flush hflush

theorem addImport_grows (s : Scope) (short target : String) :
    (s.addImport short target).annotationImports = s.annotationImports ∨
      ∃ short' target', Scope.leadsToNotes target' = true ∧
        (s.addImport short target).annotationImports = s.annotationImports.add short' target' := by
  unfold Scope.addImport
  dsimp only
  split
  · rename_i hleads
    exact .inr ⟨short, target, hleads, rfl⟩
  · exact .inl rfl

namespace Outcome.Sees

variable {path : String} {s s' : Scope}

/-- Ordinary material in a scope that has grown. -/
theorem scan (hgrows : s'.annotationImports = s.annotationImports ∨
      ∃ short target, Scope.leadsToNotes target = true ∧
        s'.annotationImports = s.annotationImports.add short target)
    (held : Option Held) (t : Token) : Sees s (scan path s' held t) where
  grows := by
    rw [scope_scan]
    exact hgrows
  released a ha := by
    rw [scope_scan]
    exact aliases_scan ha

/-- A comment let go before ordinary material. -/
theorem after_scan (hsame : s'.annotationImports = s.annotationImports) {a : Attachment}
    (ha : a.aliases = s'.annotationImports.entries) (held : Option Held) (t : Token) :
    Sees s (.after a (Php.scan path s' held t)) := by
  have hscan : Sees s (Php.scan path s' held t) := Sees.scan (.inl hsame) held t
  refine ⟨hscan.grows, fun b hb => ?_⟩
  rcases List.mem_cons.mp hb with rfl | hb
  · rw [ha]
    exact congrArg (·.annotationImports.entries) (scope_scan path s' held t).symm
  · exact hscan.released b hb

/-- A mode that goes on. -/
theorem goesOn (hsame : s'.annotationImports = s.annotationImports) (m : Mode) :
    Sees s (⟨s', m⟩, []) := ⟨.inl hsame, nofun⟩

/-- A declaration that takes its comment. -/
theorem taken {a : Attachment} (ha : a.aliases = s.annotationImports.entries) (m : Mode) :
    Sees s (⟨s, m⟩, [a]) :=
  ⟨.inl rfl, fun b hb => by
    cases List.mem_singleton.mp hb
    exact ha⟩

theorem stepImportTail (held : Option Held) (group target short : String) (t : Token) :
    Sees s (stepImportTail path s held group target short t) := by
  have hgrows := addImport_grows s short target
  unfold Php.stepImportTail
  dsimp only
  split
  · exact goesOn rfl _
  split
  · exact ⟨hgrows, nofun⟩
  split
  · exact ⟨hgrows, nofun⟩
  · exact Sees.scan hgrows held t

end Outcome.Sees

/-- **One token** hands out the aliases of the scope, to which it may have added one. -/
theorem step_sees (path : String) (w : Walk) (t : Token) : (w.step path t).Sees w.scope := by
  obtain ⟨scope, mode⟩ := w
  cases mode with
  | scanning held => exact .scan (.inl rfl) held t
  | typeHeader held =>
      simp only [Walk.step]
      split
      · cases held <;> exact ⟨.inl rfl, nofun⟩
      · exact .scan (.inl rfl) held t
  | typeNamed h =>
      simp only [Walk.step]
      split
      · exact .goesOn rfl _
      · exact .after_scan rfl rfl none t
  | parentName h parts =>
      have hsame : (setParent scope parts).annotationImports = scope.annotationImports := by
        unfold setParent
        split
        · rfl
        · rfl
      simp only [Walk.step]
      split
      · exact .goesOn rfl _
      · exact .after_scan hsame rfl none t
  | member h isStatic =>
      simp only [Walk.step]
      split
      · exact .goesOn rfl _
      split
      · exact .taken rfl _
      split
      · exact .goesOn rfl _
      split
      · exact .goesOn rfl _
      · exact .scan (.inl rfl) (some h) t
  | staticMember h =>
      simp only [Walk.step]
      split
      · exact .taken rfl _
      split
      · exact .goesOn rfl _
      split
      · exact .goesOn rfl _
      split
      · exact .goesOn rfl _
      · exact .scan (.inl rfl) (some h) t
  | methodName h byReference =>
      simp only [Walk.step]
      split
      · exact .goesOn rfl _
      split
      · exact .taken rfl _
      · exact .after_scan rfl rfl none t
  | namespaceName held parts =>
      simp only [Walk.step]
      split
      · exact .goesOn rfl _
      · exact .scan (.inl (by rfl)) held t
  | importName held group parts =>
      simp only [Walk.step, endImportName]
      split
      · exact .goesOn rfl _
      split
      · exact .scan (.inl rfl) held t
      split
      · exact .goesOn rfl _
      · exact .stepImportTail held group _ _ t
  | importAlias held group target =>
      simp only [Walk.step]
      split
      · exact .goesOn rfl _
      · exact .scan (.inl rfl) held t
  | importTail held group target short => exact .stepImportTail held group target short t
  | groupEnd held =>
      simp only [Walk.step]
      split
      · exact .goesOn rfl _
      · exact .scan (.inl rfl) held t

/-- The end of the source does so too. -/
theorem finish_sees (path : String) (w : Walk) : (w.finish path).Sees w.scope := by
  have hstep := step_sees path w ⟨.docComment, "", 0⟩
  rw [step_comment rfl] at hstep
  exact ⟨hstep.grows, hstep.released⟩

/-- **Aliases that annotations may see**: the built-in one, and such as lead into the vendor's
    namespace, in whichever case it is written. -/
def OnlyNotes (aliases : Aliases) : Prop :=
  ∀ e ∈ aliases, e = (builtinAlias, annotationNamespace) ∨
    "swagger\\".toList <+: (Text.lowercase e.2).toList

theorem onlyNotes_add {table : Imports} (h : OnlyNotes table.entries) (short : String)
    {target : String} (hleads : Scope.leadsToNotes target = true) :
    OnlyNotes (table.add short target).entries := by
  have htarget : "swagger\\".toList <+: (Text.lowercase (dropSeparators target)).toList := by
    unfold Scope.leadsToNotes at hleads
    exact List.isPrefixOf_iff_prefix.mp hleads
  intro e he
  unfold Imports.add Aliases.put at he
  dsimp only at he
  split at he
  · obtain ⟨d, hd, rfl⟩ := List.mem_map.mp he
    split
    · exact .inr htarget
    · exact h d hd
  · rcases List.mem_append.mp he with he | he
    · exact h e he
    · cases List.mem_singleton.mp he
      exact .inr htarget

theorem Outcome.Sees.onlyNotes {s : Scope} {o : Outcome} (h : o.Sees s)
    (hs : OnlyNotes s.annotationImports.entries) :
    OnlyNotes o.1.scope.annotationImports.entries ∧ ∀ a ∈ o.2, OnlyNotes a.aliases := by
  have hscope : OnlyNotes o.1.scope.annotationImports.entries := by
    rcases h.grows with hsame | ⟨short, target, hleads, hadd⟩
    · rw [hsame]
      exact hs
    · rw [hadd]
      exact onlyNotes_add hs short hleads
  refine ⟨hscope, fun a ha => ?_⟩
  rw [h.released a ha]
  exact hscope

/-- **The pass hands out only aliases that annotations may see**, if it starts with such. -/
theorem run_onlyNotes (path : String) (w : Walk) (hw : OnlyNotes w.scope.annotationImports.entries)
    (ts : List Token) : ∀ a ∈ (w.run path ts).2, OnlyNotes a.aliases := by
  induction ts generalizing w with
  | nil => exact ((finish_sees path w).onlyNotes hw).2
  | cons t ts ih =>
      obtain ⟨hnext, hreleased⟩ := (step_sees path w t).onlyNotes hw
      intro a ha
      rcases List.mem_append.mp ha with ha | ha
      · exact hreleased a ha
      · exact ih (w.step path t).1 hnext a ha

/-- A file starts with the built-in alias. -/
theorem onlyNotes_initial : OnlyNotes Scope.initial.annotationImports.entries := by
  intro e he
  cases List.mem_singleton.mp he
  exact .inl rfl

/-! ## 5. The main statement -/

/-- A foreign import leaves a scope looking as it did. -/
theorem asSeen_addImport_foreign (s : Scope) (short : String) {target : String}
    (h : Scope.leadsToNotes target = false) : (s.addImport short target).asSeen = s.asSeen := by
  unfold Scope.addImport
  rw [h]
  rfl

/-- The passes with and without a foreign import, from any state. -/
theorem run_foreign (path : String) {semicolon : Token} (hend : semicolon.isPunct ";" = true)
    {u : List Token} {target short : String} (hu : ImportStatement u target short)
    (hforeign : Scope.leadsToNotes target = false) (w : Walk) (pre post : List Token) :
    (w.run path (pre ++ semicolon :: (u ++ post))).asSeen =
      (w.run path (pre ++ semicolon :: post)).asSeen := by
  induction pre generalizing w with
  | nil =>
      have hlook : Walk.asSeen ⟨w.finalScope.addImport short target, .scanning (w.ended path).1⟩ =
          Walk.asSeen ⟨w.finalScope, .scanning (w.ended path).1⟩ :=
        congrArg (Walk.mk · _) (asSeen_addImport_foreign w.finalScope short hforeign)
      rw [List.nil_append, List.nil_append, run_semicolon hend, run_semicolon hend,
        run_importStatement path _ _ hu, Outcome.asSeen_behind, Outcome.asSeen_behind,
        run_congr path hlook post]
  | cons t pre ih =>
      rw [List.cons_append, List.cons_append, Walk.run_cons, Walk.run_cons, Outcome.asSeen_behind,
        Outcome.asSeen_behind, ih]

/-- **Annotations do not see foreign imports.** A statement that imports a name from outside the
    vendor's namespace, under whichever alias and wherever a statement has ended, changes nothing in
    the comments that are let go: neither their texts and places nor the aliases that they are
    handed nor what they stand at, the parent of a class apart. The scope at the end looks the same
    too. And whatever a file imports, the aliases handed out are the built-in one and such as lead
    into the vendor's namespace. -/
theorem foreign_import_unseen (path : String) (scope : Scope) (pre post u : List Token)
    (semicolon : Token) (target short : String) (hend : semicolon.isPunct ";" = true)
    (hu : ImportStatement u target short) (hforeign : Scope.leadsToNotes target = false) :
    (runFrom path scope (pre ++ semicolon :: (u ++ post))).2.map (·.withoutParent) =
        (runFrom path scope (pre ++ semicolon :: post)).2.map (·.withoutParent) ∧
      (runFrom path scope (pre ++ semicolon :: (u ++ post))).1.scope.asSeen =
        (runFrom path scope (pre ++ semicolon :: post)).1.scope.asSeen ∧
      ∀ ts, ∀ a ∈ attachments path ts, OnlyNotes a.aliases := by
  have hsame := run_foreign path hend hu hforeign ⟨scope, .scanning none⟩ pre post
  refine ⟨congrArg Prod.snd hsame, congrArg (·.1.scope) hsame, fun ts a ha => ?_⟩
  exact run_onlyNotes path Walk.initial onlyNotes_initial ts a ha

/-- An import under the name that annotations are written with, in front of a class with a
    comment. -/
theorem foreign_import_under_builtin_alias :
    (⟨.punct, ";", 1⟩ : Token).isPunct ";" = true ∧
      Scope.leadsToNotes "Other\\Thing" = false ∧
      (runFrom "pets.php" .initial ([] ++ ⟨.punct, ";", 1⟩ ::
          ([⟨.kwUse, "use", 2⟩, ⟨.ident, "Other\\Thing", 2⟩, ⟨.kwAs, "as", 2⟩, ⟨.ident, "SWG", 2⟩,
              ⟨.punct, ";", 2⟩] ++
            [⟨.docComment, "/** pet */", 3⟩, ⟨.kwClass, "class", 4⟩, ⟨.ident, "Pet", 4⟩,
              ⟨.kwExtends, "extends", 4⟩, ⟨.ident, "SWG", 4⟩]))).2.map (·.withoutParent) =
        (runFrom "pets.php" .initial ([] ++ ⟨.punct, ";", 1⟩ ::
            [⟨.docComment, "/** pet */", 3⟩, ⟨.kwClass, "class", 4⟩, ⟨.ident, "Pet", 4⟩,
              ⟨.kwExtends, "extends", 4⟩, ⟨.ident, "SWG", 4⟩])).2.map (·.withoutParent) := by
  have hforeign : Scope.leadsToNotes "Other\\Thing" = false := by decide +kernel
  refine ⟨rfl, hforeign, ?_⟩
  exact (foreign_import_unseen "pets.php" .initial [] _ _ ⟨.punct, ";", 1⟩ "Other\\Thing" "SWG" rfl
    (.renamed rfl rfl (by decide) rfl rfl rfl) hforeign).1

end Php

end Marginalia

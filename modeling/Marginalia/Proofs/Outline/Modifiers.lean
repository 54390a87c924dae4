import Marginalia.Proofs.Outline.Declarations

/-!
# Which orders of modifiers a member takes its comment in

A member may have its modifiers in any order, but the pass does not read all orders alike. It
waits, in front of the first word that opens a member (a visibility or `var`), for nothing but
`static` and `abstract`; behind that word it takes every modifier in. This module says exactly
what becomes of a comment in front of a member:

* `leading`: the modifiers in front of the first word that opens a member;
* `taken`: whether the member takes the comment. `final` and `readonly` among the leading
  modifiers lose it, and without a word that opens a member the last modifier must be `static`,
  unless a function follows;
* `shownStatic`: whether a property is labelled as static. `static` counts behind the word
  that opens the member, or directly in front of a visibility.

Main statement: `member_taken_by_modifiers`. It also says for which modifiers every order comes to
the same.
-/

namespace Marginalia.Php

/-! ## 1. What becomes of a comment -/

/-- The modifiers in front of the first one that opens a member. -/
def leading (mods : List Modifier) : List Modifier := mods.takeWhile (!·.opens)

/-- Whether the last modifier is `static`. -/
def endsInStatic (mods : List Modifier) : Bool := mods.getLast? == some .static

/-- Whether what is declared is a method. -/
def Declared.isMethod : Declared → Bool
  | .method _ => true
  | _ => false

/-- Whether a member can do without modifiers: a function, with no word of a type before it. -/
def Declared.needsNone (what : Declared) (types : List Token) : Bool :=
  what.isMethod && !types.any (·.kind = .ident)

/-- Whether a member with these modifiers takes the comment in front of it. -/
def taken (mods : List Modifier) (types : List Token) (what : Declared) : Bool :=
  !(leading mods).contains .fixing &&
    (mods.any Modifier.opens || endsInStatic mods || what.needsNone types)

/-- Whether a property with these modifiers is labelled as static. -/
def shownStatic (mods : List Modifier) : Bool :=
  match mods.dropWhile (!·.opens) with
  | [] => endsInStatic mods
  | first :: more => more.contains .static || (first == .visibility && endsInStatic (leading mods))

/-- A comment that nothing takes: with its text, under its own line alone. -/
def Token.loose (path : String) (scope : Scope) (c : Token) : Attachment where
  comment := c.text
  location := path ++ " on line " ++ natText c.line
  target := .unattached
  aliases := scope.annotationImports.entries

/-- What becomes of a comment in front of a member. -/
def released (path : String) (scope : Scope) (c : Token) (mods : List Modifier)
    (types : List Token) (what : Declared) : Attachment :=
  if taken mods types what then what.attachment path scope (shownStatic mods) c
  else c.loose path scope

/-! ## 2. Waiting for a member -/

/-- The mode in front of a member: `static` may have been the last word. -/
def waiting (h : Held) (isStatic : Bool) : Mode :=
  if isStatic then .staticMember h else .scanning (some h)

theorem isIdle_of_modifier? {t : Token} {m : Modifier} (ht : t.modifier? = some m) : t.IsIdle := by
  have his := Modifier.is_of_modifier? ht
  unfold Token.IsIdle
  cases m with
  | visibility => rcases his with hk | hk | hk <;> simp [hk]
  | fixing => simp [his.1]
  | var | static | abstract => simp [show t.kind = _ from his]

theorem isIdle_of_isTypePart {t : Token} (ht : t.IsTypePart) : t.IsIdle := by
  unfold Token.IsIdle
  rcases kind_of_isTypePart ht with hk | hk <;> simp [hk]

theorem isIdle_of_memberEnd {last : List Token} {what : Declared} (hlast : MemberEnd last what) :
    ∀ t ∈ last, t.IsIdle := by
  unfold Token.IsIdle
  cases hlast with
  | property hv => simp [hv]
  | method hf hn => simp [hf, hn]
  | methodByReference hf hr hn => simp [hf, kind_of_isPunct hr, hn]

section Steps

variable (path : String) (scope : Scope) (h : Held) {t : Token}

/-- A word that is no modifier and opens nothing lets the comment go. -/
theorem scan_lost (ht : t.kind = .ident ∨ t.kind = .varName ∨ t.kind = .keyword) :
    scan path scope (some h) t = (⟨scope, .scanning none⟩, [h.unattached path scope]) := by
  rcases ht with hk | hk | hk <;> simp [scan, hk, TokenKind.isVisibility]

variable (isStatic : Bool)

theorem step_waiting_static (ht : t.modifier? = some .static) :
    Walk.step path ⟨scope, waiting h isStatic⟩ t = (⟨scope, waiting h true⟩, []) := by
  have hk : t.kind = .kwStatic := Modifier.is_of_modifier? ht
  cases isStatic <;> simp [waiting, Walk.step, scan, isTypeMaterial, hk, TokenKind.isVisibility]

theorem step_waiting_abstract (ht : t.modifier? = some .abstract) :
    Walk.step path ⟨scope, waiting h isStatic⟩ t = (⟨scope, waiting h false⟩, []) := by
  have hk : t.kind = .kwAbstract := Modifier.is_of_modifier? ht
  cases isStatic <;> simp [waiting, Walk.step, scan, isTypeMaterial, hk, TokenKind.isVisibility]

theorem step_waiting_fixing (ht : t.modifier? = some .fixing) :
    Walk.step path ⟨scope, waiting h isStatic⟩ t =
      (⟨scope, .scanning none⟩, [h.unattached path scope]) := by
  have hk : t.kind = .keyword := (Modifier.is_of_modifier? ht).1
  have hscan := scan_lost path scope h (.inr (.inr hk))
  cases isStatic with
  | false => exact hscan
  | true =>
      have hmaterial : isTypeMaterial t = false := by simp [isTypeMaterial, hk]
      simp only [waiting, if_true, Walk.step, hk, TokenKind.isVisibility, hmaterial, hscan,
        reduceCtorEq, Bool.false_eq_true, if_false]

theorem step_waiting_opens {m : Modifier} (ht : t.modifier? = some m) (hm : m.opens = true) :
    Walk.step path ⟨scope, waiting h isStatic⟩ t =
      (⟨scope, .member h (m == .visibility && isStatic)⟩, []) := by
  cases isStatic with
  | false =>
      rw [Bool.and_false]
      exact step_opens path scope h ht hm
  | true =>
      rw [Bool.and_true]
      cases m with
      | visibility => exact step_staticMember_visibility path scope h ht
      | var =>
          have hk : t.kind = .kwVar := Modifier.is_of_modifier? ht
          simp [waiting, Walk.step, scan, isTypeMaterial, hk, TokenKind.isVisibility]
      | static | abstract | fixing => cases hm

/-! ## 3. Runs -/

/-- **Leading modifiers without `final` and `readonly`**: the last one counts. -/
theorem run_leading {lead : List Token} {mods : List Modifier}
    (hmods : lead.map Token.modifier? = mods.map some)
    (hwait : ∀ m ∈ mods, m = .static ∨ m = .abstract) (ts : List Token) :
    Walk.run path ⟨scope, waiting h isStatic⟩ (lead ++ ts) =
      Walk.run path
        ⟨scope, waiting h ((mods.getLast?.map (· == Modifier.static)).getD isStatic)⟩ ts := by
  induction lead generalizing mods isStatic with
  | nil =>
      cases mods with
      | nil => rfl
      | cons m mods => cases hmods
  | cons t lead ih =>
      cases mods with
      | nil => cases hmods
      | cons m mods =>
          obtain ⟨ht, hlead⟩ := List.cons_eq_cons.mp hmods
          have hstep : Walk.step path ⟨scope, waiting h isStatic⟩ t =
              (⟨scope, waiting h (m == .static)⟩, []) := by
            rcases hwait m List.mem_cons_self with rfl | rfl
            · exact step_waiting_static path scope h isStatic ht
            · exact step_waiting_abstract path scope h isStatic ht
          rw [List.cons_append, Walk.run_cons, hstep, Outcome.behind_nil,
            ih (m == .static) hlead fun m' hm' => hwait m' (List.mem_cons_of_mem m hm'),
            List.getLast?_cons]
          cases mods.getLast? <;> rfl

/-- Parts of a type where no member has been opened: a word lets the comment go. -/
theorem run_types_scanning {types : List Token} (htypes : ∀ t ∈ types, t.IsTypePart)
    (ts : List Token) :
    Walk.run path ⟨scope, .scanning (some h)⟩ (types ++ ts) =
      if types.any (·.kind = .ident) then
        (runFrom path scope ts).behind [h.unattached path scope]
      else Walk.run path ⟨scope, .scanning (some h)⟩ ts := by
  induction types with
  | nil => rfl
  | cons t types ih =>
      have hmore := fun u hu => htypes u (List.mem_cons_of_mem t hu)
      rw [List.cons_append, Walk.run_cons, List.any_cons]
      by_cases hk : t.kind = .ident
      · have hstep : Walk.step path ⟨scope, .scanning (some h)⟩ t =
            (⟨scope, .scanning none⟩, [h.unattached path scope]) := scan_lost path scope h (.inl hk)
        have hidle := run_idle path scope (fun u hu => isIdle_of_isTypePart (hmore u hu)) ts
        rw [hstep, decide_eq_true hk, Bool.true_or, if_pos rfl]
        exact congrArg (Outcome.behind _) hidle
      · have hpunct : t.kind = .punct :=
          (kind_of_isTypePart (htypes t List.mem_cons_self)).resolve_left hk
        have hstep : Walk.step path ⟨scope, .scanning (some h)⟩ t =
            (⟨scope, .scanning (some h)⟩, []) := by simp only [Walk.step, scan, hpunct]
        rw [hstep, decide_eq_false hk, Bool.false_or, Outcome.behind_nil]
        exact ih hmore

end Steps

/-! ## 4. Leading modifiers -/

theorem leading_append (mods : List Modifier) :
    leading mods ++ mods.dropWhile (!·.opens) = mods := List.takeWhile_append_dropWhile

/-- A leading modifier does not open a member. -/
theorem cases_of_mem_leading {mods : List Modifier} {m : Modifier} (hm : m ∈ leading mods) :
    m = .static ∨ m = .abstract ∨ m = .fixing := by
  have hopens := List.mem_takeWhile_imp hm
  cases m with
  | static => exact .inl rfl
  | abstract => exact .inr (.inl rfl)
  | fixing => exact .inr (.inr rfl)
  | visibility | var => cases hopens

/-- Leading modifiers without `final` and `readonly` are `static` and `abstract`. -/
theorem static_or_abstract_of_leading {mods ms : List Modifier} (hsub : ms ⊆ leading mods)
    (hnot : .fixing ∉ ms) : ∀ m ∈ ms, m = .static ∨ m = .abstract := by
  intro m hm
  rcases cases_of_mem_leading (hsub hm) with h | h | h
  · exact .inl h
  · exact .inr h
  · exact absurd (h ▸ hm) hnot

theorem opens_of_dropWhile {mods more : List Modifier} {m : Modifier}
    (h : mods.dropWhile (!·.opens) = m :: more) : m.opens = true := by
  have hhead := List.head?_dropWhile_not (fun m : Modifier => !m.opens) mods
  rw [h] at hhead
  simpa using hhead

theorem contains_eq_false {m : Modifier} {mods : List Modifier} (h : m ∉ mods) :
    mods.contains m = false :=
  Bool.eq_false_iff.mpr fun hmem => h (List.contains_iff_mem.mp hmem)

theorem any_opens_eq (mods : List Modifier) :
    mods.any Modifier.opens = !(mods.dropWhile (!·.opens)).isEmpty := by
  induction mods with
  | nil => rfl
  | cons m mods ih =>
      rw [List.any_cons, List.dropWhile_cons]
      cases hm : m.opens with
      | true => rfl
      | false => exact ih

theorem modifier?_of_mem {us : List Token} {mods : List Modifier}
    (h : us.map Token.modifier? = mods.map some) {u : Token} (hu : u ∈ us) :
    ∃ m ∈ mods, u.modifier? = some m := by
  have hmem : u.modifier? ∈ mods.map some := h ▸ List.mem_map_of_mem hu
  obtain ⟨m, hm, heq⟩ := List.mem_map.mp hmem
  exact ⟨m, hm, heq.symm⟩

theorem any_static_of_modifiers {us : List Token} {mods : List Modifier}
    (h : us.map Token.modifier? = mods.map some) :
    us.any (·.kind = .kwStatic) = mods.contains .static := by
  induction us generalizing mods with
  | nil =>
      cases mods with
      | nil => rfl
      | cons m mods => cases h
  | cons u us ih =>
      cases mods with
      | nil => cases h
      | cons m mods =>
          obtain ⟨hu, hus⟩ := List.cons_eq_cons.mp h
          rw [List.any_cons, List.contains_cons, ih hus, decide_static_of_modifier? hu]
          cases m <;> rfl

/-- Which mode leading modifiers end in. -/
theorem getLast?_static (mods : List Modifier) :
    (mods.getLast?.map (· == Modifier.static)).getD false = endsInStatic mods := by
  unfold endsInStatic
  cases mods.getLast? <;> rfl

section Members

variable (path : String) (scope : Scope) (c : Token) {types last : List Token} {what : Declared}
  (htypes : ∀ t ∈ types, t.IsTypePart) (hlast : MemberEnd last what)

include htypes hlast

/-- The end of a member that no word has opened. -/
theorem run_waiting_end (isStatic : Bool) (ts : List Token) :
    Walk.run path ⟨scope, waiting c.asHeld isStatic⟩ (types ++ (last ++ ts)) =
      (runFrom path scope ts).behind
        [if isStatic || what.needsNone types then what.attachment path scope isStatic c
          else c.loose path scope] := by
  cases isStatic with
  | true =>
      have hrun := run_typeParts path scope c.asHeld htypes (last ++ ts)
      exact hrun.trans ((takesMember_staticMember path scope c).run hlast ts)
  | false =>
      rw [Bool.false_or]
      refine (run_types_scanning path scope c.asHeld htypes (last ++ ts)).trans ?_
      cases hword : types.any (·.kind = .ident) with
      | true =>
          have hnone : what.needsNone types = false := by
            rw [Declared.needsNone, hword, Bool.not_true, Bool.and_false]
          rw [if_pos rfl, hnone, if_neg Bool.false_ne_true,
            run_idle path scope (isIdle_of_memberEnd hlast)]
          rfl
      | false =>
          have hnone : what.needsNone types = what.isMethod := by
            rw [Declared.needsNone, hword, Bool.not_false, Bool.and_true]
          rw [if_neg Bool.false_ne_true, hnone]
          cases hlast with
          | @property v hv =>
              show Walk.run path _ (v :: ts) = _
              rw [Walk.run_cons]
              simp only [Walk.step, scan_lost path scope c.asHeld (.inr (.inl hv))]
              rfl
          | method hf hn =>
              exact (takesFunction_scanning path scope c).run (.method hf hn) false ts
          | methodByReference hf hr hn =>
              exact (takesFunction_scanning path scope c).run (.methodByReference hf hr hn) false ts

/-- The first `final` or `readonly` lets the comment go, and the rest is passed over. -/
theorem run_fixing {ms : List Token} {before after : List Modifier}
    (hms : ms.map Token.modifier? = (before ++ .fixing :: after).map some)
    (hwait : ∀ m ∈ before, m = .static ∨ m = .abstract) (isStatic : Bool) (ts : List Token) :
    Walk.run path ⟨scope, waiting c.asHeld isStatic⟩ (ms ++ (types ++ (last ++ ts))) =
      (runFrom path scope ts).behind [c.loose path scope] := by
  rw [List.map_append, List.map_cons] at hms
  obtain ⟨lead, behind, rfl, hlead, hbehind⟩ := List.map_eq_append_iff.mp hms
  obtain ⟨t, more, rfl, ht, hmore⟩ := List.map_eq_cons_iff.mp hbehind
  have hidle : ∀ u ∈ more ++ (types ++ last), u.IsIdle := by
    intro u hu
    rcases List.mem_append.mp hu with hu | hu
    · obtain ⟨m, -, hm⟩ := modifier?_of_mem hmore hu
      exact isIdle_of_modifier? hm
    rcases List.mem_append.mp hu with hu | hu
    · exact isIdle_of_isTypePart (htypes u hu)
    · exact isIdle_of_memberEnd hlast u hu
  have hrest : more ++ (types ++ (last ++ ts)) = more ++ (types ++ last) ++ ts := by
    simp only [List.append_assoc]
  rw [List.append_assoc, run_leading path scope c.asHeld isStatic hlead hwait, List.cons_append,
    Walk.run_cons, step_waiting_fixing path scope c.asHeld _ ht, hrest]
  exact congrArg (Outcome.behind _) (run_idle path scope hidle ts)

/-- Behind the word that opens a member every modifier is taken in. -/
theorem run_opened {ms : List Token} {m : Modifier} {more : List Modifier}
    (hms : ms.map Token.modifier? = (m :: more).map some) (hm : m.opens = true) (isStatic : Bool)
    (ts : List Token) :
    Walk.run path ⟨scope, waiting c.asHeld isStatic⟩ (ms ++ (types ++ (last ++ ts))) =
      (runFrom path scope ts).behind
        [what.attachment path scope
          (more.contains .static || (m == .visibility && isStatic)) c] := by
  obtain ⟨t, after, rfl, ht, hafter⟩ := List.map_eq_cons_iff.mp hms
  have hmix : ∀ u ∈ after ++ types, u.modifier?.isSome = true ∨ u.IsTypePart := by
    intro u hu
    rcases List.mem_append.mp hu with hu | hu
    · obtain ⟨m', -, hm'⟩ := modifier?_of_mem hafter hu
      exact .inl (Option.isSome_iff_exists.mpr ⟨m', hm'⟩)
    · exact .inr (htypes u hu)
  have hstatic : (after ++ types).any (·.kind = .kwStatic) = more.contains .static := by
    have htype : types.any (·.kind = .kwStatic) = false :=
      List.any_eq_false.mpr fun u hu => by simpa using decide_static_of_isTypePart (htypes u hu)
    rw [List.any_append, any_static_of_modifiers hafter, htype, Bool.or_false]
  have hassoc : after ++ (types ++ (last ++ ts)) = (after ++ types) ++ (last ++ ts) := by
    rw [List.append_assoc]
  rw [List.cons_append, Walk.run_cons, step_waiting_opens path scope c.asHeld _ ht hm,
    Outcome.behind_nil, hassoc, run_mix path scope c.asHeld hmix, hstatic,
    (takesMember_member path scope c _).run hlast ts, Bool.or_comm]

/-- **What becomes of the comment in front of a member.** -/
theorem run_modifiers {ms : List Token} {mods : List Modifier}
    (hmods : ms.map Token.modifier? = mods.map some) (ts : List Token) :
    Walk.run path ⟨scope, .scanning (some c.asHeld)⟩ (ms ++ (types ++ (last ++ ts))) =
      (runFrom path scope ts).behind [released path scope c mods types what] := by
  have hstart : Mode.scanning (some c.asHeld) = waiting c.asHeld false := rfl
  have hsplit := leading_append mods
  rw [hstart]
  by_cases hfixing : Modifier.fixing ∈ leading mods
  · obtain ⟨before, after, hlead, hnot⟩ := List.eq_append_cons_of_mem hfixing
    have hwait := static_or_abstract_of_leading (hlead ▸ List.subset_append_left _ _) hnot
    rw [← hsplit, hlead, List.append_assoc, List.cons_append] at hmods
    rw [run_fixing path scope c htypes hlast hmods hwait, released, taken,
      List.contains_iff_mem.mpr hfixing]
    rfl
  · have hwait := static_or_abstract_of_leading (List.Subset.refl _) hfixing
    rw [← hsplit, List.map_append] at hmods
    obtain ⟨lead, behind, rfl, hlead, hbehind⟩ := List.map_eq_append_iff.mp hmods
    rw [List.append_assoc, run_leading path scope c.asHeld false hlead hwait, getLast?_static,
      released, taken, contains_eq_false hfixing, any_opens_eq, Bool.not_false, Bool.true_and]
    cases hdrop : mods.dropWhile (!·.opens) with
    | nil =>
        rw [hdrop] at hbehind hsplit
        rw [List.append_nil] at hsplit
        rw [List.map_eq_nil_iff.mp hbehind, List.nil_append,
          run_waiting_end path scope c htypes hlast, hsplit]
        simp only [List.isEmpty_nil, Bool.not_true, Bool.false_or, shownStatic, hdrop]
    | cons m more =>
        rw [hdrop] at hbehind
        rw [run_opened path scope c htypes hlast hbehind (opens_of_dropWhile hdrop)]
        simp only [List.isEmpty_cons, Bool.not_false, Bool.true_or, if_true, shownStatic, hdrop]

end Members

/-! ## 5. Every order of the same modifiers -/

/-- **Modifiers whose order does not matter** to the member behind them: there is no `final` and no
    `readonly`, there is something to hold on to, and if a property is static then `static` can get
    lost neither in front of `var` nor in front of `abstract`. -/
structure OrderFree (mods : List Modifier) (types : List Token) (what : Declared) : Prop where
  fixing : .fixing ∉ mods
  hold : mods.any Modifier.opens = true ∨ (.static ∈ mods ∧ .abstract ∉ mods) ∨
    what.needsNone types = true
  label : what.isMethod = true ∨ .static ∉ mods ∨ (.var ∉ mods ∧ .abstract ∉ mods)

theorem endsInStatic_iff {mods : List Modifier} :
    endsInStatic mods = true ↔ mods.getLast? = some .static := beq_iff_eq

theorem mem_of_endsInStatic {mods : List Modifier} (h : endsInStatic mods = true) :
    .static ∈ mods := List.mem_of_getLast? (endsInStatic_iff.mp h)

theorem endsInStatic_of_all {mods : List Modifier} (hall : ∀ m ∈ mods, m = .static)
    (hmem : .static ∈ mods) : endsInStatic mods = true := by
  rw [endsInStatic_iff, List.getLast?_eq_some_getLast (List.ne_nil_of_mem hmem)]
  exact congrArg some (hall _ (List.getLast_mem _))

theorem leading_subset (mods : List Modifier) : leading mods ⊆ mods :=
  (List.takeWhile_prefix _).subset

theorem mem_of_mem_behind {mods more : List Modifier} {first m : Modifier}
    (hdrop : mods.dropWhile (!·.opens) = first :: more) (hm : m ∈ more) : m ∈ mods :=
  (List.dropWhile_suffix (!·.opens)).subset (hdrop ▸ List.mem_cons_of_mem first hm)

/-- Nothing is shown as static without the word. -/
theorem shownStatic_of_not_mem {mods : List Modifier} (h : .static ∉ mods) :
    shownStatic mods = false := by
  unfold shownStatic
  cases hdrop : mods.dropWhile (!·.opens) with
  | nil => exact Bool.eq_false_iff.mpr fun hends => h (mem_of_endsInStatic hends)
  | cons first more =>
      have hmore := contains_eq_false fun hmem => h (mem_of_mem_behind hdrop hmem)
      have hends : endsInStatic (leading mods) = false :=
        Bool.eq_false_iff.mpr fun hends => h (leading_subset mods (mem_of_endsInStatic hends))
      simp only [hmore, hends, Bool.and_false, Bool.or_self]

/-- With the word, and nothing that it can get lost in front of, static is shown. -/
theorem shownStatic_of_mem {mods : List Modifier} (hstatic : .static ∈ mods) (hvar : .var ∉ mods)
    (habstract : .abstract ∉ mods) (hfixing : .fixing ∉ mods) : shownStatic mods = true := by
  have hsplit := leading_append mods
  have hlead : ∀ m ∈ leading mods, m = .static := by
    intro m hm
    rcases cases_of_mem_leading hm with rfl | rfl | rfl
    · rfl
    · exact absurd (leading_subset mods hm) habstract
    · exact absurd (leading_subset mods hm) hfixing
  unfold shownStatic
  cases hdrop : mods.dropWhile (!·.opens) with
  | nil =>
      rw [hdrop, List.append_nil] at hsplit
      exact endsInStatic_of_all (hsplit ▸ hlead) hstatic
  | cons first more =>
      have hfirst : first = .visibility := by
        have hopens := opens_of_dropWhile hdrop
        cases first with
        | visibility => rfl
        | var => exact absurd (hsplit ▸ hdrop ▸ by simp) hvar
        | static | abstract | fixing => cases hopens
      rw [← hsplit, hdrop, List.mem_append] at hstatic
      simp only [hfirst, beq_self_eq_true, Bool.true_and, Bool.or_eq_true, List.contains_iff_mem]
      rcases hstatic with hmem | hmem
      · exact .inr (endsInStatic_of_all hlead hmem)
      · rw [hfirst] at hmem
        exact .inl ((List.mem_cons.mp hmem).resolve_left (by decide))

section Orders

variable {mods : List Modifier} {types : List Token} {what : Declared}

theorem OrderFree.perm {order : List Modifier} (h : OrderFree mods types what)
    (hperm : order.Perm mods) : OrderFree order types what where
  fixing hmem := h.fixing (hperm.mem_iff.mp hmem)
  hold := by
    rw [hperm.any_eq, hperm.mem_iff, hperm.mem_iff]
    exact h.hold
  label := by
    rw [hperm.mem_iff, hperm.mem_iff, hperm.mem_iff]
    exact h.label

theorem OrderFree.taken (h : OrderFree mods types what) : taken mods types what = true := by
  have hlead := contains_eq_false fun hmem => h.fixing (leading_subset mods hmem)
  rw [Php.taken, hlead, Bool.not_false, Bool.true_and, Bool.or_eq_true, Bool.or_eq_true]
  cases hopens : mods.any Modifier.opens with
  | true => exact .inl (.inl rfl)
  | false =>
      rcases h.hold with hany | ⟨hstatic, habstract⟩ | hnone
      · rw [hopens] at hany
        cases hany
      · -- without a word that opens the member all modifiers are `static`
        refine .inl (.inr (endsInStatic_of_all (fun m hm => ?_) hstatic))
        have hm' := List.any_eq_false.mp hopens m hm
        cases m with
        | static => rfl
        | abstract => exact absurd hm habstract
        | fixing => exact absurd hm h.fixing
        | visibility | var => exact absurd rfl hm'
      · exact .inr hnone

theorem OrderFree.shownStatic (h : OrderFree mods types what) (hproperty : what.isMethod = false) :
    shownStatic mods = mods.contains .static := by
  have hlabel : .static ∉ mods ∨ (.var ∉ mods ∧ .abstract ∉ mods) :=
    h.label.resolve_left (by rw [hproperty]; exact Bool.false_ne_true)
  by_cases hstatic : Modifier.static ∈ mods
  · obtain ⟨hvar, habstract⟩ := hlabel.resolve_left (not_not_intro hstatic)
    rw [shownStatic_of_mem hstatic hvar habstract h.fixing, List.contains_iff_mem.mpr hstatic]
  · rw [shownStatic_of_not_mem hstatic, contains_eq_false hstatic]

/-- `final` or `readonly` in front of everything loses the comment. -/
theorem taken_fixing_first (mods : List Modifier) (types : List Token) (what : Declared) :
    taken (.fixing :: mods) types what = false := rfl

/-- `static` gets lost where all of it stands in front of `var` or of `abstract`. -/
theorem shownStatic_lost {statics others : List Modifier} {m : Modifier}
    (hstatics : ∀ s ∈ statics, s = .static) (hm : m = .var ∨ m = .abstract)
    (hothers : .static ∉ others) : shownStatic (statics ++ m :: others) = false := by
  have hskip : ∀ ms : List Modifier, (statics ++ ms).dropWhile (!·.opens) =
      ms.dropWhile (!·.opens) ∧ leading (statics ++ ms) = statics ++ leading ms := by
    intro ms
    have hwait : ∀ s ∈ statics, (!s.opens) = true := by
      intro s hs
      rw [hstatics s hs]
      rfl
    exact ⟨List.dropWhile_append_of_pos hwait, List.takeWhile_append_of_pos hwait⟩
  unfold shownStatic
  rw [(hskip _).1, (hskip _).2]
  rcases hm with rfl | rfl
  · show (others.contains .static || false) = false
    rw [Bool.or_false, contains_eq_false hothers]
  · -- the last modifier that counts is `abstract`, or one of the others
    have hends : ∀ ms : List Modifier, ms ⊆ others →
        endsInStatic (statics ++ .abstract :: ms) = false := by
      intro ms hms
      refine Bool.eq_false_iff.mpr fun h => ?_
      have hlast : (Modifier.abstract :: ms).getLast? = some .static := by
        rw [endsInStatic_iff, List.getLast?_append, List.getLast?_cons, Option.some_or] at h
        exact List.getLast?_cons.trans h
      rcases List.mem_cons.mp (List.mem_of_getLast? hlast) with h | h
      · cases h
      · exact hothers (hms h)
    show (match others.dropWhile (!·.opens) with
      | [] => endsInStatic (statics ++ .abstract :: others)
      | first :: more => more.contains .static ||
          (first == .visibility && endsInStatic (statics ++ .abstract :: leading others))) = false
    cases hdrop : others.dropWhile (!·.opens) with
    | nil => exact hends others fun _ h => h
    | cons first more =>
        have hmore := contains_eq_false fun hmem => hothers (mem_of_mem_behind hdrop hmem)
        simp only [hmore, hends _ (leading_subset others), Bool.and_false, Bool.or_self]

/-- An order in which `static` gets lost. -/
theorem exists_order_static_lost {m : Modifier} (hm : m = .var ∨ m = .abstract)
    (hmem : m ∈ mods) : ∃ order : List Modifier, order.Perm mods ∧ shownStatic order = false := by
  have hne : m ≠ .static := by rcases hm with rfl | rfl <;> decide
  have hkept : m ∈ mods.filter (!· == Modifier.static) :=
    List.mem_filter.mpr ⟨hmem, by simpa using hne⟩
  refine ⟨mods.filter (· == Modifier.static) ++
    m :: (mods.filter (!· == Modifier.static)).erase m, ?_, ?_⟩
  · exact ((List.perm_cons_erase hkept).symm.append_left _).trans
      (List.filter_append_perm (· == Modifier.static) mods)
  · refine shownStatic_lost (fun s hs => beq_iff_eq.mp (List.mem_filter.mp hs).2) hm fun h => ?_
    have hstatic := (List.mem_filter.mp (List.mem_of_mem_erase h)).2
    cases hstatic

/-- **Every order comes to the same if and only if the order does not matter.** -/
theorem every_order_iff :
    (∀ order : List Modifier, order.Perm mods → taken order types what = true ∧
      (what.isMethod = true ∨ shownStatic order = mods.contains .static)) ↔
      OrderFree mods types what := by
  constructor
  · intro hall
    have hfixing : Modifier.fixing ∉ mods := by
      intro hmem
      have h := (hall _ (List.perm_cons_erase hmem).symm).1
      rw [taken_fixing_first] at h
      cases h
    refine ⟨hfixing, ?_, ?_⟩
    · by_cases hopens : mods.any Modifier.opens = true
      · exact .inl hopens
      by_cases hnone : what.needsNone types = true
      · exact .inr (.inr hnone)
      -- then every order must end in `static`
      have hends : ∀ order : List Modifier, order.Perm mods → endsInStatic order = true := by
        intro order hperm
        have h := (hall order hperm).1
        rw [taken, hperm.any_eq, Bool.and_eq_true, Bool.or_eq_true, Bool.or_eq_true] at h
        exact (h.2.resolve_right hnone).resolve_left hopens
      refine .inr (.inl ⟨mem_of_endsInStatic (hends mods (.refl _)), fun habstract => ?_⟩)
      have hlast := endsInStatic_iff.mp (hends (mods.erase .abstract ++ [.abstract])
        ((List.perm_append_singleton _ _).trans (List.perm_cons_erase habstract).symm))
      rw [List.getLast?_concat] at hlast
      cases hlast
    · by_cases hmethod : what.isMethod = true
      · exact .inl hmethod
      by_cases hstatic : Modifier.static ∈ mods
      · have hkept : ∀ m, m = Modifier.var ∨ m = .abstract → m ∉ mods := by
          intro m hm hmem
          obtain ⟨order, hperm, hlost⟩ := exists_order_static_lost hm hmem
          have h := (hall order hperm).2.resolve_left hmethod
          rw [hlost, List.contains_iff_mem.mpr hstatic] at h
          cases h
        exact .inr (.inr ⟨hkept .var (.inl rfl), hkept .abstract (.inr rfl)⟩)
      · exact .inr (.inl hstatic)
  · intro hfree order hperm
    refine ⟨(hfree.perm hperm).taken, ?_⟩
    cases hmethod : what.isMethod with
    | true => exact .inl rfl
    | false =>
        refine .inr (((hfree.perm hperm).shownStatic hmethod).trans (Bool.eq_iff_iff.mpr ?_))
        rw [List.contains_iff_mem, List.contains_iff_mem, hperm.mem_iff]

end Orders

/-! ## 6. The main statement -/

/-- **What becomes of a comment in front of a member, whatever the order of its modifiers.** The
    comment is let go behind those that come before it: at the member if `taken` says so, with the
    label of a static property if `shownStatic` says so, and otherwise on its own. The tokens behind
    the member are read as ordinary material, and the pass with a cursor does the same, whichever
    way its flag for static members was left. If the first modifier is a visibility or `var`, the
    member takes the comment, and is labelled as static if and only if `static` is among the
    modifiers. All orders of some modifiers come to that if and only if their order does not matter
    (`OrderFree`): that of `final` and `readonly` always does. -/
theorem member_taken_by_modifiers (path : String) (scope : Scope)
    (pre ms types last rest : List Token) (c : Token) (mods : List Modifier) (what : Declared)
    (hc : c.kind = .docComment) (hmods : ms.map Token.modifier? = mods.map some)
    (htypes : ∀ t ∈ types, t.IsTypePart) (hlast : MemberEnd last what) :
    let here := (runFrom path scope pre).1.scope
    let behind := runFrom path here rest
    let comments := (runFrom path scope pre).2 ++
      (if taken mods types what then what.attachment path here (shownStatic mods) c
        else c.loose path here) :: behind.2
    runFrom path scope (pre ++ c :: (ms ++ (types ++ (last ++ rest)))) = (behind.1, comments) ∧
      (∀ isStatic, ∃ final, Pass.run path ⟨scope, .scanning, none, isStatic⟩
        (pre ++ c :: (ms ++ (types ++ (last ++ rest)))) = .ok (final, comments)) ∧
      (∀ m more, mods = m :: more → m.opens = true →
        taken mods types what = true ∧ shownStatic mods = mods.contains .static) ∧
      ((∀ order : List Modifier, order.Perm mods → taken order types what = true ∧
        (what.isMethod = true ∨ shownStatic order = mods.contains .static)) ↔
          OrderFree mods types what) := by
  intro here behind comments
  have hrun : runFrom path scope (pre ++ c :: (ms ++ (types ++ (last ++ rest)))) =
      (behind.1, comments) := by
    rw [runFrom_append_comment path scope pre hc, run_modifiers path _ c htypes hlast hmods]
    rfl
  refine ⟨hrun, fun isStatic => ?_, ?_, every_order_iff⟩
  · obtain ⟨final, hfinal, -⟩ := Pass.run_from path scope isStatic
      (pre ++ c :: (ms ++ (types ++ (last ++ rest))))
    rw [hrun] at hfinal
    exact ⟨final, hfinal⟩
  · rintro m more rfl hm
    cases m with
    | visibility | var =>
        refine ⟨rfl, ?_⟩
        show (more.contains .static || (_ && false)) = _
        rw [Bool.and_false, Bool.or_false]
        rfl
    | static | abstract | fixing => cases hm

/-- A static property: in either order of its modifiers it takes the comment, as a static one. -/
theorem static_property_in_any_order :
    (⟨.docComment, "/** count */", 2⟩ : Token).kind = .docComment ∧
      (runFrom "pets.php" .initial
        ([⟨.kwClass, "class", 1⟩, ⟨.ident, "Pet", 1⟩, ⟨.punct, "\x7b", 1⟩] ++
          ⟨.docComment, "/** count */", 2⟩ ::
            ([⟨.kwStatic, "static", 3⟩, ⟨.kwProtected, "protected", 3⟩] ++
              ([⟨.punct, "?", 3⟩, ⟨.ident, "int", 3⟩] ++
                ([⟨.varName, "$count", 3⟩] ++ [⟨.punct, ";", 3⟩]))))).2.map
          (fun a => (a.location, a.target)) =
        [("Pet::$count in pets.php on line 2", .property "count")] ∧
      ∀ order : List Modifier, order.Perm [.static, .visibility] →
        taken order [⟨.punct, "?", 3⟩, ⟨.ident, "int", 3⟩] (.property "$count") = true ∧
          ((Declared.property "$count").isMethod = true ∨ shownStatic order = true) := by
  have hfree : OrderFree [.static, .visibility] [⟨.punct, "?", 3⟩, ⟨.ident, "int", 3⟩]
      (.property "$count") := ⟨by decide, .inl rfl, .inr (.inr (by decide))⟩
  obtain ⟨hrun, -, -, horders⟩ := member_taken_by_modifiers "pets.php" .initial
    [⟨.kwClass, "class", 1⟩, ⟨.ident, "Pet", 1⟩, ⟨.punct, "\x7b", 1⟩]
    [⟨.kwStatic, "static", 3⟩, ⟨.kwProtected, "protected", 3⟩]
    [⟨.punct, "?", 3⟩, ⟨.ident, "int", 3⟩] [⟨.varName, "$count", 3⟩] [⟨.punct, ";", 3⟩]
    ⟨.docComment, "/** count */", 2⟩ [.static, .visibility] (.property "$count") rfl rfl
    (by decide) (.property rfl)
  refine ⟨rfl, ?_, horders.mpr hfree⟩
  exact (congrArg (fun o : Outcome => o.2.map fun a => (a.location, a.target)) hrun).trans rfl

-- `final` in front of the visibility of a method: the method does not take its comment, though it
-- does in the other order.
example :
    (attachments "pets.php" [⟨.kwClass, "class", 1⟩, ⟨.ident, "Pet", 1⟩, ⟨.punct, "\x7b", 1⟩,
        ⟨.docComment, "/** find */", 2⟩, ⟨.keyword, "final", 3⟩, ⟨.kwPublic, "public", 3⟩,
        ⟨.kwFunction, "function", 3⟩, ⟨.ident, "find", 3⟩]).map (fun a => (a.location, a.target)) =
        [("pets.php on line 2", .unattached)] ∧
      (attachments "pets.php" [⟨.kwClass, "class", 1⟩, ⟨.ident, "Pet", 1⟩, ⟨.punct, "\x7b", 1⟩,
        ⟨.docComment, "/** find */", 2⟩, ⟨.kwPublic, "public", 3⟩, ⟨.keyword, "final", 3⟩,
        ⟨.kwFunction, "function", 3⟩, ⟨.ident, "find", 3⟩]).map (fun a => (a.location, a.target)) =
        [("Pet->find(...) in pets.php on line 2", .method "find")] := by
  decide +kernel

end Marginalia.Php

import Marginalia.Proofs.Outline.Segments

/-!
# Comments stand at the declaration behind them

A doc-comment belongs to the class, property or method whose header follows it. This module says
which rows of tokens are headers, and what each of them declares:

* `Modifier`, `Token.modifier?`: the words in front of a member, by what they do to the pass;
* `MemberEnd`: what a member ends in, and what it is called;
* `Header`: the headers of classes, and those of members whose modifiers begin with one that sets
  the visibility, with `var` or with `static`, or that have none;
* `Declared.target`, `Declared.label`: what the comment is handed over with.

Main statement: `comment_attached_to_declaration`. Whatever stands before the comment, signs and the
word `abstract` may stand between it and the header, and the header takes it. The modes that a
header goes through are gone through one part after another (`run_mix`, `run_typeParts`,
`run_memberEnd`, …), and `run_header` puts them together.
-/

namespace Marginalia.Php

/-! ## 1. The words of a header -/

/-- The words in front of a member. -/
inductive Modifier where
  /-- `public`, `protected` or `private`. -/
  | visibility
  | var
  | static
  | abstract
  /-- `final` or `readonly`. -/
  | fixing
deriving DecidableEq, Repr

/-- The modifier that a token is. -/
def Token.modifier? (t : Token) : Option Modifier :=
  match t.kind with
  | .kwPublic | .kwProtected | .kwPrivate => some .visibility
  | .kwVar => some .var
  | .kwStatic => some .static
  | .kwAbstract => some .abstract
  | .keyword =>
    if Text.lowercase t.text = "final" ∨ Text.lowercase t.text = "readonly" then some .fixing
    else none
  | _ => none

/-- Whether a modifier is one that a member can begin with on its own. -/
def Modifier.opens : Modifier → Bool
  | .visibility | .var => true
  | _ => false

/-- What the type of a property is written with: names and the signs between them. -/
def Token.IsTypePart (t : Token) : Prop :=
  t.kind = .ident ∨ ∃ sign ∈ ["?", "|", "&", "\\"], t.isPunct sign = true

instance (t : Token) : Decidable t.IsTypePart :=
  inferInstanceAs (Decidable (t.kind = .ident ∨ ∃ sign ∈ _, t.isPunct sign = true))

/-- Tokens that write a name: words with separators between them. A word never stands directly
    behind a word; the flag says whether one may come first. -/
inductive SpellsName : Bool → List Token → Prop
  | nil (first : Bool) : SpellsName first []
  | separator {first : Bool} {t : Token} {ts : List Token} (ht : t.isPunct "\\" = true)
      (hts : SpellsName true ts) : SpellsName first (t :: ts)
  | word {t : Token} {ts : List Token} (ht : t.kind = .ident) (hts : SpellsName false ts) :
      SpellsName true (t :: ts)

/-- A token that does nothing where no comment is held. -/
def Token.IsIdle (t : Token) : Prop :=
  t.kind ∉ [TokenKind.docComment, .kwNamespace, .kwUse, .kwClass]

/-- The text of a name. -/
def nameText (ts : List Token) : String := String.join (ts.map (·.text))

/-! ## 2. Headers -/

/-- What a header declares, by the names that stand in it. -/
inductive Declared where
  | type (name : String) (parent : Option String)
  | property (name : String)
  | method (name : String)

/-- The end of a member: the variable of a property, or the name behind the word that opens a
    function; the sign of a reference may stand between the two. -/
inductive MemberEnd : List Token → Declared → Prop
  | property {v : Token} (hv : v.kind = .varName) : MemberEnd [v] (.property v.text)
  | method {f n : Token} (hf : f.kind = .kwFunction) (hn : n.kind = .ident) :
      MemberEnd [f, n] (.method n.text)
  | methodByReference {f r n : Token} (hf : f.kind = .kwFunction) (hr : r.isPunct "&" = true)
      (hn : n.kind = .ident) : MemberEnd [f, r, n] (.method n.text)

/-- **A header, and what it declares.** -/
inductive Header : List Token → Declared → Prop
  /-- A class. -/
  | type {cls name : Token} (hcls : cls.kind = .kwClass) (hname : name.kind = .ident) :
      Header [cls, name] (.type name.text none)
  /-- A class with a parent. -/
  | subtype {cls name ext : Token} {parent : List Token} (hcls : cls.kind = .kwClass)
      (hname : name.kind = .ident) (hext : ext.kind = .kwExtends)
      (hparent : SpellsName true parent) (hne : parent ≠ []) :
      Header (cls :: name :: ext :: parent) (.type name.text (some (nameText parent)))
  /-- A word that opens a member, then modifiers and parts of a type in any order. -/
  | member {first : Token} {m : Modifier} {mix last : List Token} {what : Declared}
      (hfirst : first.modifier? = some m) (hm : m.opens = true)
      (hmix : ∀ t ∈ mix, t.modifier?.isSome = true ∨ t.IsTypePart)
      (hlast : MemberEnd last what) : Header (first :: (mix ++ last)) what
  /-- `static`, then parts of a type. -/
  | static {word : Token} {types last : List Token} {what : Declared}
      (hword : word.kind = .kwStatic) (htypes : ∀ t ∈ types, t.IsTypePart)
      (hlast : MemberEnd last what) : Header (word :: (types ++ last)) what
  /-- `static`, then parts of a type, then a visibility and what can follow one. -/
  | staticMember {word first : Token} {types mix last : List Token} {what : Declared}
      (hword : word.kind = .kwStatic) (htypes : ∀ t ∈ types, t.IsTypePart)
      (hfirst : first.modifier? = some .visibility)
      (hmix : ∀ t ∈ mix, t.modifier?.isSome = true ∨ t.IsTypePart)
      (hlast : MemberEnd last what) :
      Header (word :: (types ++ first :: (mix ++ last))) what
  /-- A function without any modifier. -/
  | function {last : List Token} {name : String} (hlast : MemberEnd last (.method name)) :
      Header last (.method name)

/-- What must not stand behind a header: the name of a class ends where no name can go on, and the
    header where no parent follows. -/
def Declared.EndsBefore : Declared → List Token → Prop
  | .type _ _, t :: _ => t.kind ≠ .kwExtends ∧ t.kind ≠ .ident ∧ t.isPunct "\\" = false
  | _, _ => True

/-! ## 3. What a comment is handed over with -/

/-- A variable without its sigil. -/
def withoutSigil (text : String) : String := String.ofList (text.toList.dropWhile (· = '$'))

/-- What is declared, as the target of a comment. A parent is meant as its name is in the scope. -/
def Declared.target (scope : Scope) : Declared → Target
  | .type name parent => .type (scope.qualify name) ((parent.filter (· ≠ "")).map scope.resolve)
  | .property name => .property (withoutSigil name)
  | .method name => .method name

/-- What is declared, as it is named in front of a place: a member by the class it belongs to. -/
def Declared.label (scope : Scope) (isStatic : Bool) : Declared → String
  | .type name _ => scope.qualify name
  | .property name =>
    scope.typeName.getD "" ++ (if isStatic then "::$" else "->") ++ withoutSigil name
  | .method name =>
    (if scope.typeName.getD "" = "" then "" else scope.typeName.getD "" ++ "->") ++ name ++ "(...)"

/-- The scope behind what is declared: a class is the current one from then on. -/
def Declared.scopeBehind (scope : Scope) : Declared → Scope
  | .type name parent =>
    { scope with
      typeName := some (scope.qualify name)
      parentType := (parent.filter (· ≠ "")).map scope.resolve }
  | _ => scope

/-- A comment that a declaration takes: with its text, under the label of the declaration and its
    own line, and with the aliases of the scope. -/
def Declared.attachment (path : String) (scope : Scope) (isStatic : Bool) (what : Declared)
    (c : Token) : Attachment where
  comment := c.text
  location := what.label scope isStatic ++ " in " ++ (path ++ " on line " ++ natText c.line)
  target := what.target scope
  aliases := scope.annotationImports.entries

/-! ## 4. One word -/

/-- What a token is that is a given modifier. -/
def Modifier.Is (t : Token) : Modifier → Prop
  | .visibility => t.kind = .kwPublic ∨ t.kind = .kwProtected ∨ t.kind = .kwPrivate
  | .var => t.kind = .kwVar
  | .static => t.kind = .kwStatic
  | .abstract => t.kind = .kwAbstract
  | .fixing =>
    t.kind = .keyword ∧ (Text.lowercase t.text = "final" ∨ Text.lowercase t.text = "readonly")

theorem Modifier.is_of_modifier? {t : Token} {m : Modifier} (h : t.modifier? = some m) :
    m.Is t := by
  unfold Token.modifier? at h
  cases hk : t.kind with
  | keyword =>
      rw [hk] at h
      dsimp only at h
      split at h
      · rename_i htext
        cases h
        exact ⟨hk, htext⟩
      · cases h
  | _ =>
      rw [hk] at h
      cases h
      all_goals simp [Modifier.Is, hk]

theorem decide_static_of_modifier? {t : Token} {m : Modifier} (ht : t.modifier? = some m) :
    decide (t.kind = .kwStatic) = decide (m = .static) := by
  have his := Modifier.is_of_modifier? ht
  cases m with
  | visibility => rcases his with hk | hk | hk <;> simp [hk]
  | fixing => simp [his.1]
  | var | static | abstract => simp [show t.kind = _ from his]

theorem kind_of_isTypePart {t : Token} (ht : t.IsTypePart) :
    t.kind = .ident ∨ t.kind = .punct := by
  rcases ht with hk | ⟨sign, -, hsign⟩
  · exact .inl hk
  · exact .inr (kind_of_isPunct hsign)

theorem decide_static_of_isTypePart {t : Token} (ht : t.IsTypePart) :
    decide (t.kind = .kwStatic) = false := by
  rcases kind_of_isTypePart ht with hk | hk <;> simp [hk]

section Words

variable (path : String) (scope : Scope) (h : Held) {t : Token} {m : Modifier}

/-- Behind the modifiers of a member any modifier is taken in, and `static` is remembered. -/
theorem step_member_modifier (isStatic : Bool) (ht : t.modifier? = some m) :
    Walk.step path ⟨scope, .member h isStatic⟩ t =
      (⟨scope, .member h (isStatic || m = .static)⟩, []) := by
  have his := Modifier.is_of_modifier? ht
  cases m with
  | visibility =>
      rcases his with hk | hk | hk <;>
        simp [Walk.step, isModifier, hk, TokenKind.isVisibility]
  | var | static | abstract => simp [Walk.step, isModifier, show t.kind = _ from his]
  | fixing =>
      obtain ⟨hk, htext | htext⟩ := his <;> simp [Walk.step, isModifier, hk, htext]

theorem isTypeMaterial_of_isTypePart (ht : t.IsTypePart) : isTypeMaterial t = true := by
  rcases ht with hk | ⟨sign, hmem, hsign⟩
  · simp [isTypeMaterial, hk]
  · simp only [Token.isPunct, Bool.and_eq_true, decide_eq_true_eq, beq_iff_eq] at hsign
    simp only [isTypeMaterial, hsign.1, hsign.2, decide_true, Bool.true_and, Bool.or_eq_true]
    exact .inr (List.contains_iff_mem.mpr hmem)

/-- So is a part of a type. -/
theorem step_member_typePart (isStatic : Bool) (ht : t.IsTypePart) :
    Walk.step path ⟨scope, .member h isStatic⟩ t = (⟨scope, .member h isStatic⟩, []) := by
  have hmaterial := isTypeMaterial_of_isTypePart ht
  rcases kind_of_isTypePart ht with hk | hk <;> simp [Walk.step, hk, hmaterial]

theorem step_staticMember_typePart (ht : t.IsTypePart) :
    Walk.step path ⟨scope, .staticMember h⟩ t = (⟨scope, .staticMember h⟩, []) := by
  have hmaterial := isTypeMaterial_of_isTypePart ht
  rcases kind_of_isTypePart ht with hk | hk <;>
    simp [Walk.step, hk, hmaterial, TokenKind.isVisibility]

/-- A word that opens a member is where its modifiers begin. -/
theorem step_opens (ht : t.modifier? = some m) (hm : m.opens = true) :
    Walk.step path ⟨scope, .scanning (some h)⟩ t = (⟨scope, .member h false⟩, []) := by
  have his := Modifier.is_of_modifier? ht
  cases m with
  | visibility =>
      rcases his with hk | hk | hk <;> simp [Walk.step, scan, hk, TokenKind.isVisibility]
  | var => simp [Walk.step, scan, show t.kind = _ from his]
  | static | abstract | fixing => cases hm

theorem step_static (ht : t.kind = .kwStatic) :
    Walk.step path ⟨scope, .scanning (some h)⟩ t = (⟨scope, .staticMember h⟩, []) := by
  simp [Walk.step, scan, ht, TokenKind.isVisibility]

theorem step_staticMember_visibility (ht : t.modifier? = some .visibility) :
    Walk.step path ⟨scope, .staticMember h⟩ t = (⟨scope, .member h true⟩, []) := by
  rcases Modifier.is_of_modifier? ht with hk | hk | hk <;>
    simp [Walk.step, hk, TokenKind.isVisibility]

end Words

/-! ## 5. Parts of headers -/

section Parts

variable (path : String) (scope : Scope) (h : Held)

/-- Signs and the word `abstract` are passed over. -/
theorem run_signs {s : List Token} (hs : ∀ t ∈ s, t.kind = .punct ∨ t.kind = .kwAbstract)
    (held : Option Held) (ts : List Token) :
    Walk.run path ⟨scope, .scanning held⟩ (s ++ ts) = Walk.run path ⟨scope, .scanning held⟩ ts := by
  induction s with
  | nil => rfl
  | cons t s ih =>
      have hstep : Walk.step path ⟨scope, .scanning held⟩ t = (⟨scope, .scanning held⟩, []) := by
        rcases hs t List.mem_cons_self with hk | hk <;> simp only [Walk.step, scan, hk]
      rw [List.cons_append, Walk.run_cons, hstep]
      exact ih fun u hu => hs u (List.mem_cons_of_mem t hu)

/-- Where no comment is held, modifiers, types and names are passed over. -/
theorem run_idle {xs : List Token} (hxs : ∀ t ∈ xs, t.IsIdle) (ts : List Token) :
    runFrom path scope (xs ++ ts) = runFrom path scope ts := by
  induction xs with
  | nil => rfl
  | cons t xs ih =>
      have hstep : Walk.step path ⟨scope, .scanning none⟩ t = (⟨scope, .scanning none⟩, []) := by
        have ht := hxs t List.mem_cons_self
        unfold Token.IsIdle at ht
        cases hk : t.kind with
        | docComment | kwNamespace | kwUse | kwClass => simp [hk] at ht
        | _ => simp only [Walk.step, scan, hk]
      rw [runFrom, List.cons_append, Walk.run_cons, hstep]
      exact ih fun u hu => hxs u (List.mem_cons_of_mem t hu)

/-- **Modifiers and parts of a type in any order** lead to the same place, and `static` among them
    is remembered. -/
theorem run_mix {mix : List Token}
    (hmix : ∀ t ∈ mix, t.modifier?.isSome = true ∨ t.IsTypePart) (isStatic : Bool)
    (ts : List Token) :
    Walk.run path ⟨scope, .member h isStatic⟩ (mix ++ ts) =
      Walk.run path ⟨scope, .member h (isStatic || mix.any (·.kind = .kwStatic))⟩ ts := by
  induction mix generalizing isStatic with
  | nil => simp
  | cons t mix ih =>
      have hmore := ih fun u hu => hmix u (List.mem_cons_of_mem t hu)
      rw [List.cons_append, Walk.run_cons, List.any_cons]
      rcases hmix t List.mem_cons_self with hsome | htype
      · obtain ⟨m, hm⟩ := Option.isSome_iff_exists.mp hsome
        rw [step_member_modifier path scope h isStatic hm, hmore, decide_static_of_modifier? hm,
          Bool.or_assoc]
        rfl
      · rw [step_member_typePart path scope h isStatic htype, hmore,
          decide_static_of_isTypePart htype, Bool.false_or]
        rfl

/-- Parts of a type behind `static`. -/
theorem run_typeParts {types : List Token} (htypes : ∀ t ∈ types, t.IsTypePart)
    (ts : List Token) :
    Walk.run path ⟨scope, .staticMember h⟩ (types ++ ts) =
      Walk.run path ⟨scope, .staticMember h⟩ ts := by
  induction types with
  | nil => rfl
  | cons t types ih =>
      rw [List.cons_append, Walk.run_cons,
        step_staticMember_typePart path scope h (htypes t List.mem_cons_self)]
      exact ih fun u hu => htypes u (List.mem_cons_of_mem t hu)

end Parts

/-- A comment while it is held. -/
def Token.asHeld (c : Token) : Held := ⟨c.text, c.line⟩

section Ends

variable (path : String) (scope : Scope) (c : Token)

theorem atProperty_eq (isStatic : Bool) (text : String) :
    c.asHeld.atProperty path scope isStatic text =
      (Declared.property text).attachment path scope isStatic c := by
  cases isStatic <;> rfl

theorem atMethod_eq (isStatic : Bool) (name : String) :
    c.asHeld.atMethod path scope name =
      (Declared.method name).attachment path scope isStatic c := by
  unfold Held.atMethod Declared.attachment Declared.label Held.attach
  dsimp only
  split
  · rw [String.empty_append]
    rfl
  · rfl

/-- A state that goes on to the name of a function behind the word that opens it. -/
def Walk.TakesFunction (w : Walk) : Prop :=
  ∀ f : Token, f.kind = .kwFunction →
    w.step path f = (⟨scope, .methodName c.asHeld false⟩, [])

/-- A state in which a member can end, static or not. -/
structure Walk.TakesMember (w : Walk) (isStatic : Bool) : Prop where
  function : w.TakesFunction path scope c
  property : ∀ v : Token, v.kind = .varName →
    w.step path v = (⟨scope, .scanning none⟩, [c.asHeld.atProperty path scope isStatic v.text])

theorem takesFunction_scanning :
    Walk.TakesFunction path scope c ⟨scope, .scanning (some c.asHeld)⟩ := by
  intro f hf
  simp [Walk.step, scan, hf, TokenKind.isVisibility]

theorem takesMember_member (isStatic : Bool) :
    Walk.TakesMember path scope c ⟨scope, .member c.asHeld isStatic⟩ isStatic where
  function f hf := by simp [Walk.step, hf]
  property v hv := by simp [Walk.step, hv]

theorem takesMember_staticMember :
    Walk.TakesMember path scope c ⟨scope, .staticMember c.asHeld⟩ true where
  function f hf := by simp [Walk.step, hf, TokenKind.isVisibility]
  property v hv := by simp [Walk.step, hv]

variable {path scope c}

/-- **A function takes the comment**, … -/
theorem Walk.TakesFunction.run {w : Walk} (hw : w.TakesFunction path scope c) {last : List Token}
    {name : String} (hlast : MemberEnd last (.method name)) (isStatic : Bool) (ts : List Token) :
    w.run path (last ++ ts) =
      (runFrom path scope ts).behind
        [(Declared.method name).attachment path scope isStatic c] := by
  rw [← atMethod_eq path scope c isStatic]
  cases hlast with
  | @method f n hf hn =>
      show Walk.run path _ (f :: n :: ts) = _
      rw [Walk.run_cons, hw f hf, Outcome.behind_nil,
        run_methodName_ident path scope c.asHeld false hn]
      rfl
  | @methodByReference f r n hf hr hn =>
      have hstep : Walk.step path ⟨scope, .methodName c.asHeld false⟩ r =
          (⟨scope, .methodName c.asHeld true⟩, []) := by
        simp only [Walk.step, hr, Bool.not_false, Bool.and_self, if_true]
      show Walk.run path _ (f :: r :: n :: ts) = _
      rw [Walk.run_cons, hw f hf, Outcome.behind_nil, Walk.run_cons, hstep, Outcome.behind_nil,
        run_methodName_ident path scope c.asHeld true hn]
      rfl

/-- … and so does the end of any member. -/
theorem Walk.TakesMember.run {w : Walk} {isStatic : Bool}
    (hw : w.TakesMember path scope c isStatic) {last : List Token} {what : Declared}
    (hlast : MemberEnd last what) (ts : List Token) :
    w.run path (last ++ ts) =
      (runFrom path scope ts).behind [what.attachment path scope isStatic c] := by
  cases hlast with
  | @property v hv =>
      rw [← atProperty_eq]
      show Walk.run path _ (v :: ts) = _
      rw [Walk.run_cons, hw.property v hv]
      rfl
  | method hf hn => exact hw.function.run (.method hf hn) isStatic ts
  | methodByReference hf hr hn => exact hw.function.run (.methodByReference hf hr hn) isStatic ts

end Ends

/-! ## 6. Classes -/

/-- **A name is read to its end**, if what follows does not go on with it. -/
theorem readName_append {first : Bool} {ts : List Token} (hts : SpellsName first ts)
    {parts : List String} (hparts : first = true → parts.getLast?.getD "\\" = "\\")
    {rest : List Token} (hrest : ∀ t ∈ rest.head?, t.kind ≠ .ident ∧ t.isPunct "\\" = false) :
    readName parts (ts ++ rest) = (parts ++ ts.map (·.text), rest) := by
  induction hts generalizing parts with
  | nil first =>
      rw [List.nil_append, List.map_nil, List.append_nil]
      cases rest with
      | nil => rfl
      | cons t rest =>
          obtain ⟨hident, hslash⟩ := hrest t rfl
          have hstop : continueName? parts t = none := by simp [continueName?, hident, hslash]
          rw [readName, hstop]
  | @separator first t ts ht hts ih =>
      have htext : t.text = "\\" := by
        simp only [Token.isPunct, Bool.and_eq_true, beq_iff_eq] at ht
        exact ht.2
      have hstep : continueName? parts t = some (parts ++ [t.text]) := by
        simp [continueName?, ht, htext]
      rw [List.cons_append, readName, hstep]
      dsimp only
      rw [ih (fun _ => by rw [htext, List.getLast?_concat]; rfl), List.map_cons,
        List.append_assoc, List.singleton_append]
  | @word t ts ht hts ih =>
      have hslash : t.isPunct "\\" = false := by simp [Token.isPunct, ht]
      have hstep : continueName? parts t = some (parts ++ [t.text]) := by
        simp [continueName?, hslash, ht, hparts rfl]
      rw [List.cons_append, readName, hstep]
      dsimp only
      rw [ih (absurd · Bool.false_ne_true), List.map_cons, List.append_assoc, List.singleton_append]

section Types

variable (path : String) (scope : Scope) (c : Token)

/-- Behind the name of a class, up to its end. -/
theorem run_typeEnd {name : String} {rest : List Token}
    (hrest : (Declared.type name none).EndsBefore rest) :
    Walk.run path
        ⟨{ scope with typeName := some (scope.qualify name), parentType := none },
          .typeNamed c.asHeld⟩ rest =
      (runFrom path ((Declared.type name none).scopeBehind scope) rest).behind
        [(Declared.type name none).attachment path scope false c] := by
  cases rest with
  | nil => rfl
  | cons t rest => exact run_typeNamed path _ c.asHeld t rest hrest.1

/-- Behind the word that names the parent of a class. -/
theorem run_parentEnd {name : String} {parent rest : List Token}
    (hparent : SpellsName true parent)
    (hrest : (Declared.type name (some (nameText parent))).EndsBefore rest) :
    Walk.run path
        ⟨{ scope with typeName := some (scope.qualify name), parentType := none },
          .parentName c.asHeld []⟩ (parent ++ rest) =
      (runFrom path ((Declared.type name (some (nameText parent))).scopeBehind scope) rest).behind
        [(Declared.type name (some (nameText parent))).attachment path scope false c] := by
  have hstop : ∀ t ∈ rest.head?, t.kind ≠ .ident ∧ t.isPunct "\\" = false := by
    intro t ht
    cases rest with
    | nil => cases ht
    | cons u rest =>
        cases ht
        exact hrest.2
  rw [run_parentName, readName_append hparent (fun _ => rfl) hstop, List.nil_append]
  dsimp only
  have hscope : setParent { scope with
        typeName := some (scope.qualify name), parentType := none } (parent.map (·.text)) =
      (Declared.type name (some (nameText parent))).scopeBehind scope := by
    unfold setParent nameOf nameText
    -- a name without any text names no parent
    by_cases hempty : String.join (parent.map (·.text)) = ""
    · rw [if_pos hempty, hempty]
      rfl
    · have hkeep : (some (String.join (parent.map (·.text)))).filter (· ≠ "") =
          some (String.join (parent.map (·.text))) := by simp [Option.filter, hempty]
      simp only [if_neg hempty, Declared.scopeBehind, hkeep]
      rfl
  rw [hscope]
  rfl

end Types

/-! ## 7. The main statement -/

theorem any_static_memberEnd {last : List Token} {what : Declared} (hlast : MemberEnd last what) :
    last.any (·.kind = .kwStatic) = false := by
  cases hlast with
  | property hv => simp [hv]
  | method hf hn => simp [hf, hn]
  | methodByReference hf hr hn => simp [hf, kind_of_isPunct hr, hn]

theorem scopeBehind_memberEnd {last : List Token} {what : Declared} (hlast : MemberEnd last what)
    (scope : Scope) : what.scopeBehind scope = scope := by
  cases hlast <;> rfl

/-- **A header takes the comment that is held**, and is passed to its end. -/
theorem run_header (path : String) (scope : Scope) (c : Token) {d : List Token} {what : Declared}
    (hd : Header d what) {rest : List Token} (hrest : what.EndsBefore rest) :
    Walk.run path ⟨scope, .scanning (some c.asHeld)⟩ (d ++ rest) =
      (runFrom path (what.scopeBehind scope) rest).behind
        [what.attachment path scope (d.any (·.kind = .kwStatic)) c] := by
  cases hd with
  | @type cls name hcls hname =>
      show Walk.run path _ (cls :: name :: rest) = _
      rw [Walk.run_cons, Walk.run_cons]
      simp only [Walk.step, scan, hcls, if_pos hname, Outcome.behind_nil]
      exact run_typeEnd path scope c hrest
  | @subtype cls name ext parent hcls hname hext hparent hne =>
      show Walk.run path _ (cls :: name :: ext :: (parent ++ rest)) = _
      rw [Walk.run_cons, Walk.run_cons, Walk.run_cons]
      simp only [Walk.step, scan, hcls, if_pos hname, if_pos hext, Outcome.behind_nil]
      exact run_parentEnd path scope c hparent hrest
  | @member first m mix last _ hfirst hm hmix hlast =>
      have hstatic : decide (first.kind = .kwStatic) = false := by
        rw [decide_static_of_modifier? hfirst]
        cases m with
        | static => cases hm
        | visibility | var | abstract | fixing => rfl
      rw [scopeBehind_memberEnd hlast, List.any_cons, List.any_append, any_static_memberEnd hlast,
        hstatic, Bool.false_or, Bool.or_false, List.cons_append, List.append_assoc, Walk.run_cons,
        step_opens path scope c.asHeld hfirst hm, Outcome.behind_nil,
        run_mix path scope c.asHeld hmix, Bool.false_or]
      exact (takesMember_member path scope c _).run hlast rest
  | @static word types last _ hword htypes hlast =>
      have hstatic : decide (word.kind = .kwStatic) = true := decide_eq_true hword
      rw [scopeBehind_memberEnd hlast, List.any_cons, hstatic, Bool.true_or, List.cons_append,
        List.append_assoc, Walk.run_cons, step_static path scope c.asHeld hword,
        Outcome.behind_nil, run_typeParts path scope c.asHeld htypes]
      exact (takesMember_staticMember path scope c).run hlast rest
  | @staticMember word first types mix last _ hword htypes hfirst hmix hlast =>
      have hstatic : decide (word.kind = .kwStatic) = true := decide_eq_true hword
      rw [scopeBehind_memberEnd hlast, List.any_cons, hstatic, Bool.true_or, List.cons_append,
        List.append_assoc, List.cons_append, List.append_assoc, Walk.run_cons,
        step_static path scope c.asHeld hword, Outcome.behind_nil,
        run_typeParts path scope c.asHeld htypes, Walk.run_cons,
        step_staticMember_visibility path scope c.asHeld hfirst, Outcome.behind_nil,
        run_mix path scope c.asHeld hmix, Bool.true_or]
      exact (takesMember_member path scope c true).run hlast rest
  | function hlast => exact (takesFunction_scanning path scope c).run hlast _ rest

/-- A comment that is met, whatever stands before it, and held from then on. -/
theorem runFrom_append_comment (path : String) (scope : Scope) (pre : List Token) {c : Token}
    (hc : c.kind = .docComment) (post : List Token) :
    runFrom path scope (pre ++ c :: post) =
      (Walk.run path ⟨(runFrom path scope pre).1.scope, .scanning (some c.asHeld)⟩ post).behind
        (runFrom path scope pre).2 := by
  have hheld : ∀ here : Scope, runFrom path here (c :: post) =
      Walk.run path ⟨here, .scanning (some c.asHeld)⟩ post := by
    intro here
    rw [runFrom, Walk.run_cons]
    simp only [Walk.step, scan_comment hc]
    rfl
  exact (run_append_comment path _ pre hc post).trans
    (congrArg (Outcome.behind _) (hheld (runFrom path scope pre).1.scope))

/-- **A comment stands at the declaration behind it.** Whatever tokens come before the comment, and
    whatever scope they start in: signs and the word `abstract` may follow it, and then the header
    of a class, a property or a method takes it. The comment is let go behind those that come before
    it, at what the header declares, under the label that the current class gives to it and with the
    line of the comment; a property is labelled as static if and only if the word `static` is
    in its header. The tokens behind are read as ordinary material. The pass with a cursor does the
    same, whichever way its flag for static members was left. -/
theorem comment_attached_to_declaration (path : String) (scope : Scope)
    (pre s d rest : List Token) (c : Token) (what : Declared) (hc : c.kind = .docComment)
    (hs : ∀ t ∈ s, t.kind = .punct ∨ t.kind = .kwAbstract) (hd : Header d what)
    (hrest : what.EndsBefore rest) :
    let here := (runFrom path scope pre).1.scope
    let taken := what.attachment path here (d.any (·.kind = .kwStatic)) c
    let behind := runFrom path (what.scopeBehind here) rest
    runFrom path scope (pre ++ c :: (s ++ (d ++ rest))) =
        (behind.1, (runFrom path scope pre).2 ++ taken :: behind.2) ∧
      ∀ isStatic, ∃ last,
        Pass.run path ⟨scope, .scanning, none, isStatic⟩ (pre ++ c :: (s ++ (d ++ rest))) =
          .ok (last, (runFrom path scope pre).2 ++ taken :: behind.2) := by
  intro here taken behind
  have hrun : runFrom path scope (pre ++ c :: (s ++ (d ++ rest))) =
      (behind.1, (runFrom path scope pre).2 ++ taken :: behind.2) := by
    rw [runFrom_append_comment path scope pre hc, run_signs path _ hs,
      run_header path _ c hd hrest]
    rfl
  refine ⟨hrun, fun isStatic => ?_⟩
  obtain ⟨last, hlast, -⟩ := Pass.run_from path scope isStatic (pre ++ c :: (s ++ (d ++ rest)))
  rw [hrun] at hlast
  exact ⟨last, hlast⟩

/-- A static property of a nullable type whose modifiers stand in an unusual order, in a class whose
    own comment is still held when its header begins. -/
theorem comment_attached_to_static_property :
    (⟨.docComment, "/** count */", 3⟩ : Token).kind = .docComment ∧
      (runFrom "pets.php" .initial
        ([⟨.docComment, "/** pet */", 1⟩, ⟨.kwClass, "class", 2⟩, ⟨.ident, "Pet", 2⟩] ++
          ⟨.docComment, "/** count */", 3⟩ :: ([⟨.punct, ";", 3⟩] ++
            ([⟨.kwStatic, "static", 4⟩, ⟨.punct, "?", 4⟩, ⟨.kwPublic, "public", 4⟩,
                ⟨.keyword, "readonly", 4⟩, ⟨.ident, "int", 4⟩, ⟨.varName, "$count", 4⟩] ++
              [⟨.punct, ";", 4⟩])))).2.map (fun a => (a.location, a.target)) =
        [("Pet in pets.php on line 1", .type "Pet" none),
          ("Pet::$count in pets.php on line 3", .property "count")] := by
  have hheader : Header (⟨.kwStatic, "static", 4⟩ :: ([⟨.punct, "?", 4⟩] ++
      ⟨.kwPublic, "public", 4⟩ :: ([⟨.keyword, "readonly", 4⟩, ⟨.ident, "int", 4⟩] ++
        [⟨.varName, "$count", 4⟩]))) (.property "$count") :=
    .staticMember rfl (by decide) rfl (by decide +kernel) (.property rfl)
  refine ⟨rfl, ?_⟩
  have hrun := (comment_attached_to_declaration "pets.php" .initial
    [⟨.docComment, "/** pet */", 1⟩, ⟨.kwClass, "class", 2⟩, ⟨.ident, "Pet", 2⟩]
    [⟨.punct, ";", 3⟩] _ [⟨.punct, ";", 4⟩] ⟨.docComment, "/** count */", 3⟩ _ rfl (by decide)
    hheader trivial).1
  exact (congrArg (fun o : Outcome => o.2.map fun a => (a.location, a.target)) hrun).trans rfl

end Marginalia.Php

import Marginalia.Proofs.DocComment.Passages
import Marginalia.Proofs.Expression.FirstFault

/-!
# Why an annotation in a comment is refused

An annotation is cut out of its comment before it is read: its name, and an argument list through
the parenthesis that closes it. So it never ends too early, and whatever is refused is refused with
its first fault (`parse_annotationText`):

* `AnnotationText`: the text of an annotation, as it is cut out;
* `Closing`: the words close `depth + 1` parentheses more than they open, the last of them with the
  last word. An argument list is cut out so that its words behind the opening parenthesis close just
  that one (`closing_of_throughClosing?`);
* `openLists`: how many argument lists are open. The words read say how many (`openings_of_before`),
  and where no list is open, no bracket is (`eq_nil_of_before`). So a text that closes its last
  parenthesis with its last word may end there (`tree?_ne_none_of_closed`).
-/

namespace Marginalia.DocComment

open Expression

/-! ## 1. The text of an annotation -/

/-- **The text of an annotation, as it is cut out of a comment**: the at sign, a name, and the
    argument list behind it, if there is one. -/
inductive AnnotationText : List Char → Prop
  | intro {rest name arguments : List Char} (hname : plainName? rest = some name)
      (harguments : argumentList (String.ofList name) (rest.drop name.length) = .ok arguments) :
      AnnotationText ('@' :: name ++ arguments)

/-- Names behind an at sign are names. -/
theorem nameLexeme_of_plainName {w : List Char} (h : w ∈ plainName) : w ∈ nameLexeme := by
  have hrow : ∀ {v}, v ∈ identifierRow → v ∈ optional {['$']} * identifierRow := fun hv =>
    mem_optional_mul.mpr (.inl hv)
  rcases mem_optional_mul.mp h with h | h
  · exact mem_optional_mul.mpr (.inl (hrow h))
  · obtain ⟨v, hv, rfl⟩ := mem_char_mul.mp h
    exact mem_optional_mul.mpr (.inr (mem_char_mul.mpr ⟨v, hrow hv, rfl⟩))

/-- What is found up to a closing parenthesis is found again in itself. -/
theorem throughClosing?_self {depth : Nat} {inString : Bool} {text u : List Char}
    (h : throughClosing? depth inString text = some u) :
    throughClosing? depth inString u = some u := by
  induction text generalizing depth inString u with
  | nil => cases h
  | cons c rest ih =>
      rw [throughClosing?_cons] at h
      split_ifs at h with hquote hinside hopening hclosing
      · obtain ⟨v, hv, rfl⟩ := Option.map_eq_some_iff.mp h
        rw [throughClosing?_cons, if_pos hquote, ih hv]
        rfl
      · obtain ⟨v, hv, rfl⟩ := Option.map_eq_some_iff.mp h
        rw [throughClosing?_cons, if_neg hquote, if_pos hinside, ih hv]
        rfl
      · obtain ⟨v, hv, rfl⟩ := Option.map_eq_some_iff.mp h
        rw [throughClosing?_cons, if_neg hquote, if_neg hinside, if_pos hopening, ih hv]
        rfl
      · cases depth with
        | zero =>
            cases h
            rw [throughClosing?_cons, if_neg hquote, if_neg hinside, if_neg hopening,
              if_pos hclosing]
        | succ outer =>
            obtain ⟨v, hv, rfl⟩ := Option.map_eq_some_iff.mp h
            rw [throughClosing?_cons, if_neg hquote, if_neg hinside, if_neg hopening,
              if_pos hclosing]
            dsimp only
            rw [ih hv]
            rfl
      · obtain ⟨v, hv, rfl⟩ := Option.map_eq_some_iff.mp h
        rw [throughClosing?_cons, if_neg hquote, if_neg hinside, if_neg hopening,
          if_neg hclosing, ih hv]
        rfl

/-! ## 2. Parentheses in words -/

/-- How many parentheses the words open. -/
def openings (words : List Word) : Nat := words.countP (·.terminal = .lpar)

/-- How many parentheses the words close. -/
def closings (words : List Word) : Nat := words.countP (·.terminal = .rpar)

/-- The words close `depth + 1` parentheses more than they open, and the last of them with the last
    word. -/
structure Closing (depth : Nat) (words : List Word) : Prop where
  counts : closings words = openings words + depth + 1
  last : ∃ front w, words = front ++ [w] ∧ w.terminal = .rpar

theorem Closing.cons_other {depth : Nat} {words : List Word} (h : Closing depth words) {w : Word}
    (hopening : w.terminal ≠ .lpar) (hclosing : w.terminal ≠ .rpar) :
    Closing depth (w :: words) := by
  obtain ⟨hcounts, front, last, rfl, hlast⟩ := h
  refine ⟨?_, w :: front, last, rfl, hlast⟩
  unfold closings openings at hcounts ⊢
  rw [List.countP_cons_of_neg (by simpa using hclosing),
    List.countP_cons_of_neg (by simpa using hopening), hcounts]

theorem Closing.cons_opening {depth : Nat} {words : List Word} (h : Closing (depth + 1) words)
    {w : Word} (hw : w.terminal = .lpar) : Closing depth (w :: words) := by
  obtain ⟨hcounts, front, last, rfl, hlast⟩ := h
  refine ⟨?_, w :: front, last, rfl, hlast⟩
  unfold closings openings at hcounts ⊢
  rw [List.countP_cons_of_neg (by simp [hw]), List.countP_cons_of_pos (by simpa using hw), hcounts]
  omega

theorem Closing.cons_closing {depth : Nat} {words : List Word} (h : Closing depth words)
    {w : Word} (hw : w.terminal = .rpar) : Closing (depth + 1) (w :: words) := by
  obtain ⟨hcounts, front, last, rfl, hlast⟩ := h
  refine ⟨?_, w :: front, last, rfl, hlast⟩
  unfold closings openings at hcounts ⊢
  rw [List.countP_cons_of_pos (by simpa using hw), List.countP_cons_of_neg (by simp [hw]), hcounts]
  omega

/-- What a balanced text is followed by is searched on its own. -/
theorem throughClosing?_of_balanced {u rest : List Char} (hu : Balanced u) {depth : Nat}
    (h : throughClosing? depth false (u ++ rest) = some (u ++ rest)) :
    throughClosing? depth false rest = some rest := by
  rw [hu] at h
  obtain ⟨v, hv, heq⟩ := Option.map_eq_some_iff.mp h
  rw [hv, List.append_cancel_left heq]

/-- **Of a text that ends where its parentheses are closed the words close as many.** -/
theorem closing_of_throughClosing? {text : List Char} {words : List Word} (h : Spelled text words)
    {depth : Nat} (hclosing : throughClosing? depth false text = some text) :
    Closing depth words := by
  induction h generalizing depth with
  | nil => cases hclosing
  | @skip c rest words hc h ih =>
      have hgap : Balanced [c] := balanced_gap (.skip hc .nil)
      exact ih (throughClosing?_of_balanced hgap hclosing)
  | @word t w rest words hw h ih =>
      by_cases hlpar : t = .lpar
      · subst hlpar
        cases hw
        rw [List.singleton_append, throughClosing?_cons] at hclosing
        obtain ⟨v, hv, heq⟩ := Option.map_eq_some_iff.mp hclosing
        obtain rfl : v = rest := (List.cons.inj heq).2
        exact (ih hv).cons_opening rfl
      · by_cases hrpar : t = .rpar
        · subst hrpar
          cases hw
          rw [List.singleton_append, throughClosing?_cons] at hclosing
          cases depth with
          | zero =>
              obtain rfl : [] = rest := (List.cons.inj (Option.some.inj hclosing)).2
              rw [h.eq_nil]
              exact ⟨rfl, [], _, rfl, rfl⟩
          | succ outer =>
              obtain ⟨v, hv, heq⟩ := Option.map_eq_some_iff.mp hclosing
              obtain rfl : v = rest := (List.cons.inj heq).2
              exact (ih hv).cons_closing rfl
        · have hrest := throughClosing?_of_balanced (balanced_lexeme hw hlpar hrpar) hclosing
          exact (ih hrest).cons_other hlpar hrpar

/-- A lexeme with an opening parenthesis in it is one, or a string. -/
theorem lexeme_of_mem_parenthesis {t : Terminal} {w : List Char} (hw : w ∈ lexemes t)
    (hmem : '(' ∈ w) : t = .lpar ∧ w = ['('] ∨ ∃ v, w = '"' :: v := by
  have hspare := lexemes_spare (c := '(') (by decide)
  cases t with
  | name => exact absurd hmem (hspare.1 w hw)
  | number => exact absurd hmem (hspare.2 w hw)
  | string =>
      obtain ⟨v, -, rfl⟩ := mem_char_mul.mp hw
      exact .inr ⟨v, rfl⟩
  | lpar => exact .inl ⟨rfl, hw⟩
  | _ =>
      cases hw
      exact absurd (List.mem_singleton.mp hmem) (by decide)

/-- **A parenthesis behind a text without quotes and parentheses is a word of its own.** -/
theorem split_parenthesis {u inner : List Char} {words : List Word}
    (hu : ∀ c ∈ ['"', '(', ')'], c ∉ u) (h : Spelled (u ++ '(' :: inner) words) :
    ∃ us vs, words = us ++ Enclosure.arguments.opening :: vs ∧ Unbracketed us ∧
      Spelled inner vs := by
  generalize htext : u ++ '(' :: inner = text at h
  induction h generalizing u with
  | nil => cases u <;> cases htext
  | @skip c rest words hc h ih =>
      cases u with
      | nil =>
          cases htext
          cases hc
      | cons d u =>
          obtain ⟨rfl, rfl⟩ := List.cons.inj htext
          exact ih (fun c hc hmem => hu c hc (List.mem_cons_of_mem _ hmem)) rfl
  | @word t w rest words hw h ih =>
      -- The word ends before the parenthesis, or the parenthesis is in it.
      have hcases : (∃ v, u = w ++ v ∧ v ++ '(' :: inner = rest) ∨
          ∃ v, w = u ++ '(' :: v ∧ inner = v ++ rest := by
        rcases List.append_eq_append_iff.mp htext with ⟨v, rfl, hrest⟩ | ⟨v, rfl, hrest⟩
        · cases v with
          | nil => exact .inl ⟨[], by rw [List.append_nil, List.append_nil], hrest⟩
          | cons d v =>
              obtain ⟨rfl, rfl⟩ := List.cons.inj hrest
              exact .inr ⟨v, rfl, rfl⟩
        · exact .inl ⟨v, rfl, hrest.symm⟩
      rcases hcases with ⟨v, rfl, hrest⟩ | ⟨v, rfl, rfl⟩
      · obtain ⟨us, vs, rfl, hus, hvs⟩ :=
          ih (fun c hc hmem => hu c hc (List.mem_append_right _ hmem)) hrest
        refine ⟨⟨t, String.ofList w⟩ :: us, vs, rfl, List.forall_mem_cons.mpr ⟨⟨?_, ?_⟩, hus⟩, hvs⟩
        · rintro rfl
          cases hw
          exact hu '(' (by decide) List.mem_cons_self
        · rintro rfl
          cases hw
          exact hu ')' (by decide) List.mem_cons_self
      · have hmem : '(' ∈ u ++ '(' :: v := List.mem_append_right _ List.mem_cons_self
        rcases lexeme_of_mem_parenthesis hw hmem with ⟨rfl, heq⟩ | ⟨v', heq⟩
        · cases u with
          | nil =>
              obtain rfl : v = [] := (List.cons.inj heq).2
              exact ⟨[], words, rfl, nofun, h⟩
          | cons c u => cases u <;> cases heq
        · cases u with
          | nil => cases heq
          | cons c u =>
              obtain ⟨rfl, -⟩ := List.cons.inj heq
              exact absurd List.mem_cons_self (hu '"' (by decide))

/-! ## 3. Open argument lists -/

theorem openings_append (us vs : List Word) : openings (us ++ vs) = openings us + openings vs :=
  List.countP_append

theorem closings_append (us vs : List Word) : closings (us ++ vs) = closings us + closings vs :=
  List.countP_append

theorem counts_of_unbracketed {words : List Word} (h : Unbracketed words) :
    openings words = 0 ∧ closings words = 0 :=
  ⟨List.countP_eq_zero.mpr fun w hw => by simpa using (h w hw).1,
    List.countP_eq_zero.mpr fun w hw => by simpa using (h w hw).2⟩

/-- The words of a derivation close what they open. -/
theorem closings_derivation {s : Nonterminal} (d : Derivation s) :
    closings d.words = openings d.words := by
  induction d with
  | bare name => rfl
  | applied name arguments ih => exact ih
  | nested a ih => exact ih
  | array entries ih => exact ih
  | leaf l text => cases l <;> rfl
  | empty e => cases e <;> rfl
  | @filled e items trailing ih =>
      have hends : closings ([e.opening] ++ e.ending trailing) =
          openings ([e.opening] ++ e.ending trailing) := by
        cases e <;> cases trailing <;> rfl
      rw [closings_append, openings_append] at hends
      rw [Derivation.words, ← List.singleton_append]
      simp only [closings_append, openings_append, ih]
      omega
  | single item ih => exact ih
  | cons item more ihItem ihMore =>
      have hcomma : closings (.comma :: more.words) = openings (.comma :: more.words) := ihMore
      rw [Derivation.words, closings_append, openings_append, ihItem, hcomma]
  | unlabelled value ih => exact ih
  | assignment name value ih => exact ih
  | pair key text sign value ih =>
      cases key <;> cases sign <;> exact ih

/-- The words of finished items close what they open. -/
theorem closings_rowWords {e : Enclosure} (row : List (Derivation (.item e))) :
    closings (rowWords row) = openings (rowWords row) := by
  induction row with
  | nil => rfl
  | cons item row ih =>
      have hitem := closings_derivation item
      have hcons : rowWords (item :: row) = item.words ++ [.comma] ++ rowWords row := rfl
      simp only [hcons, closings_append, openings_append, ih, hitem]
      rfl

theorem closings_labels {e : Enclosure} {label : Option Atom} {words : List Word}
    (h : Labels e label words) : closings words = openings words := by
  cases h with
  | none => rfl
  | assignment name => rfl
  | pair key text sign => cases key <;> cases sign <;> rfl

/-- How many argument lists are open. -/
def openLists (frames : List Frame) : Nat := frames.countP (·.bracket.enclosure = .arguments)

/-- **The words before open brackets open as many parentheses more than they close as there are
    argument lists open.** -/
theorem openings_of_before {frames : List Frame} {words : List Word} (h : Before frames words) :
    openings words = closings words + openLists frames := by
  induction h with
  | outermost => rfl
  | @inside frames words outer b hb row label labelWords hlabel ih =>
      have hrow := closings_rowWords row
      have hlabelled := closings_labels hlabel
      have hstart : openings b.start = closings b.start + openLists [⟨b, [], none⟩] := by
        cases b <;> rfl
      have hframes : openLists (⟨b, row.map Derivation.meaning, label⟩ :: frames) =
          openLists [⟨b, [], none⟩] + openLists frames := by
        unfold openLists
        rw [← List.singleton_append, List.countP_append]
        rfl
      simp only [closings_append, openings_append, hframes, hrow, hlabelled, hstart, ih]
      omega

/-- Where no argument list is open, no bracket is: the outermost one is that of an annotation. -/
theorem eq_nil_of_before {frames : List Frame} {words : List Word} (h : Before frames words)
    (hopen : openLists frames = 0) : frames = [] := by
  induction h with
  | outermost => rfl
  | @inside frames words outer b hb row label labelWords hlabel ih =>
      obtain ⟨hbracket, hframes⟩ := List.forall_mem_cons.mp (List.countP_eq_zero.mp hopen)
      cases b with
      | arguments name => exact absurd rfl hbracket
      | array => exact absurd (ih (List.countP_eq_zero.mpr hframes)) (hb rfl)

/-! ## 4. Annotations are not cut short -/

/-- **Behind words that close every parenthesis, the last one with the last word, the text may
    end.** -/
theorem tree?_ne_none_of_closed {s : State} {words : List Word} (h : Behind s words)
    (hcounts : closings words = openings words)
    (hlast : ∃ front w, words = front ++ [w] ∧ w.terminal = .rpar) : s.tree? ≠ none := by
  have hnotOpen : ∀ {f : Frame} {frames words}, Before (f :: frames) words →
      closings words = openings words → False := by
    intro f frames words hbefore hcounts
    have hopen := openings_of_before hbefore
    have hnil := eq_nil_of_before hbefore (by omega)
    cases hnil
  obtain ⟨front, w, hwords, hw⟩ := hlast
  cases h with
  | start => cases front <;> cases hwords
  | head h =>
      obtain ⟨-, heq⟩ := List.append_inj' hwords rfl
      cases heq
      cases hw
  | @named frames words h name =>
      have hconcat : words ++ [.at] ++ [⟨.name, name⟩] = front ++ [w] := by
        rw [List.append_assoc]
        exact hwords
      obtain ⟨-, heq⟩ := List.append_inj' hconcat rfl
      cases heq
      cases hw
  | opened h => exact (hnotOpen h hcounts).elim
  | atom h l text =>
      obtain ⟨-, heq⟩ := List.append_inj' hwords rfl
      cases heq
      cases l <;> cases hw
  | labelled h => exact (hnotOpen h hcounts).elim
  | item h item =>
      rw [closings_append, openings_append, closings_derivation item] at hcounts
      exact (hnotOpen h (by omega)).elim
  | done d => exact nofun

/-- In front of the argument list there are neither quotes nor parentheses. -/
theorem not_mem_front {name : List Char} (hname : name ∈ plainName) (rest : List Char) :
    ∀ c ∈ ['"', '(', ')'], c ∉ '@' :: name ++ rest.takeWhile Text.isBlank := by
  intro c hc hmem
  rcases List.mem_append.mp hmem with hmem | hmem
  · rcases List.mem_cons.mp hmem with rfl | hmem
    · exact absurd hc (by decide)
    · have hseparator : ∀ c ∈ ['"', '(', ')'], c ∈ '"' :: separators :=
        List.all_iff_forall_prop.mp (by decide)
      have hspares := (lexemes_spare (hseparator c hc)).1
      exact hspares name (nameLexeme_of_plainName hname) hmem
  · have hblank : ∀ c ∈ ['"', '(', ')'], Text.isBlank c = false :=
      List.all_iff_forall_prop.mp (by decide)
    have hgap := List.mem_takeWhile_imp hmem
    rw [hblank c hc] at hgap
    cases hgap

/-- The text of an annotation does not end before a sentence does. -/
theorem AnnotationText.tree?_ne_none {text : List Char} (h : AnnotationText text)
    {words : List Word} (hwords : Tokenised text words) {last : State}
    (hread : State.initial.read words = some last) : last.tree? ≠ none := by
  obtain @⟨rest, name, arguments, hname, harguments⟩ := h
  have hfinds := plainName?_finds rest
  rw [hname] at hfinds
  have hplain : name ∈ plainName := hfinds.1
  unfold argumentList at harguments
  split at harguments
  · rename_i behind hbehind
    split at harguments
    · rename_i inner hinner
      cases harguments
      rw [← List.append_assoc] at hwords
      obtain ⟨us, vs, rfl, hus, hvs⟩ := split_parenthesis (not_mem_front hplain _) hwords.spelled
      obtain ⟨hcounts, front, w, rfl, hw⟩ :=
        closing_of_throughClosing? hvs (throughClosing?_self hinner)
      have hstate : Behind last (us ++ Enclosure.arguments.opening :: (front ++ [w])) :=
        Behind.start.read hwords.spelled.words hread
      refine tree?_ne_none_of_closed hstate ?_
        ⟨us ++ Enclosure.arguments.opening :: front, w, by simp, hw⟩
      obtain ⟨hopenings, hclosings⟩ := counts_of_unbracketed hus
      have hparenthesis : closings [Enclosure.arguments.opening] = 0 ∧
          openings [Enclosure.arguments.opening] = 1 := ⟨rfl, rfl⟩
      rw [← List.singleton_append]
      simp only [closings_append _ ([_] ++ _), openings_append _ ([_] ++ _),
        closings_append [_] _, openings_append [_] _, hcounts, hopenings, hclosings, hparenthesis]
      omega
    · cases harguments
  · cases harguments
    have hspelled : Spelled ('@' :: name ++ []) (Derivation.bare (String.ofList name)).words :=
      .word (t := .at) rfl (.word (t := .name) (nameLexeme_of_plainName hplain) .nil)
    have htree := treeOf_words (Derivation.bare (String.ofList name))
    rw [treeOf, hspelled.tokenised.unique hwords, hread, Option.bind_some] at htree
    rw [htree]
    exact Option.some_ne_none _

/-- **An annotation is refused with its first fault.** The words in front of the fault begin a
    sentence; either the word at this place cannot stand behind them in any sentence, or no word
    starts at this place. -/
theorem parse_annotationText {text : List Char} (h : AnnotationText text) {fault : Fault}
    (hparse : Expression.parse text = .error fault) : FirstFault text fault := by
  rcases parse_eq_error hparse with hfault | ⟨words, last, hwords, hread, htree⟩
  · exact hfault
  · exact absurd htree (h.tree?_ne_none hwords hread)

/-- An annotation whose second line starts with a sign that cannot stand there. -/
def doubledSign : List Char := "@SWG\\Model(id=\n  =\"Pet\")".toList

theorem parse_annotationText_doubledSign :
    AnnotationText doubledSign ∧
    Expression.parse doubledSign = .error (.unexpectedToken .equal "=" ⟨2, 3⟩) ∧
    FirstFault doubledSign (.unexpectedToken .equal "=" ⟨2, 3⟩) := by
  have hname : plainName? doubledSign.tail = some "SWG\\Model".toList := by decide +kernel
  have harguments : argumentList (String.ofList "SWG\\Model".toList)
      (doubledSign.tail.drop "SWG\\Model".toList.length) = .ok "(id=\n  =\"Pet\")".toList := rfl
  have htext : AnnotationText doubledSign := .intro hname harguments
  have hparse : Expression.parse doubledSign = .error (.unexpectedToken .equal "=" ⟨2, 3⟩) := rfl
  exact ⟨htext, hparse, parse_annotationText htext hparse⟩

end Marginalia.DocComment

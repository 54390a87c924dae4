import Marginalia.Proofs.Note.Assembly

/-!
# Laws of gathering

What has been gathered from arguments is known by what it says under each name (`Gathered.said`)
and by its references:

* `said_put_self`, `said_put_of_ne`: what entering a value does to that;
* `extend_extend`: values that are added in two goes are added in one, also where the first go is
  refused. So annotations for a list are gathered one by one or all at once (`addAll_notes`);
* `addAll_append_eq`: arguments behind one another, faults included.
-/

namespace Marginalia

/-! ## 1. Outcomes -/

section Outcomes

variable {ε α β : Type} {x : Except ε α} {b : β}

/-- Two steps succeed if the first does, and then the second. -/
theorem exists_of_bind_ok {f : α → Except ε β} (h : x.bind f = .ok b) :
    ∃ a, x = .ok a ∧ f a = .ok b := by
  cases x with
  | error e => cases h
  | ok a => exact ⟨a, rfl, h⟩

theorem exists_of_map_ok {f : α → β} (h : x.map f = .ok b) : ∃ a, x = .ok a ∧ f a = b := by
  cases x with
  | error e => cases h
  | ok a => exact ⟨a, rfl, Except.ok.inj h⟩

end Outcomes

/-! ## 2. Entries -/

/-- A key that is there already keeps its place. -/
theorem putEntry_of_mem {es : List (Key × Value)} {name : String} (v : Value)
    (h : Key.text name ∈ es.map (·.1)) :
    putEntry es (.text name) v = es.map fun e => if e.1 = .text name then (e.1, v) else e := by
  obtain ⟨e, he, hkey⟩ := List.mem_map.mp h
  have hany : es.any (·.1.same (.text name)) = true := by
    refine List.any_eq_true.mpr ⟨e, he, ?_⟩
    rw [Key.same_text, hkey, beq_self_eq_true]
  unfold putEntry
  rw [if_pos hany]
  refine List.map_congr_left fun d _ => ?_
  rw [Key.same_text]
  simp only [beq_iff_eq]

theorem lookup_putEntry_self (es : List (Key × Value)) (name : String) (v : Value) :
    (putEntry es (.text name) v).lookup (.text name) = some v := by
  by_cases h : Key.text name ∈ es.map (·.1)
  · rw [putEntry_of_mem v h]
    induction es with
    | nil => exact absurd h List.not_mem_nil
    | cons e es ih =>
        obtain ⟨key, w⟩ := e
        rw [List.map_cons]
        by_cases hkey : key = .text name
        · rw [if_pos hkey, hkey]
          exact List.lookup_cons_self
        · have hmore : Key.text name ∈ es.map (·.1) :=
            (List.mem_cons.mp h).resolve_left (Ne.symm hkey)
          rw [if_neg hkey, List.lookup_cons, beq_eq_false_iff_ne.mpr (Ne.symm hkey)]
          exact ih hmore
  · rw [putEntry_of_not_mem v h, List.lookup_append, lookup_eq_none_of_not_mem h, Option.none_or]
    exact List.lookup_cons_self

theorem lookup_putEntry_of_ne (es : List (Key × Value)) {name other : String} (v : Value)
    (hne : other ≠ name) :
    (putEntry es (.text name) v).lookup (.text other) = es.lookup (.text other) := by
  have hkeys : (Key.text other == .text name) = false :=
    beq_eq_false_iff_ne.mpr fun h => hne (Key.text.inj h)
  by_cases h : Key.text name ∈ es.map (·.1)
  · rw [putEntry_of_mem v h]
    clear h
    induction es with
    | nil => rfl
    | cons e es ih =>
        obtain ⟨key, w⟩ := e
        rw [List.map_cons]
        by_cases hkey : key = .text name
        · rw [if_pos hkey, hkey, List.lookup_cons, List.lookup_cons, hkeys]
          exact ih
        · rw [if_neg hkey, List.lookup_cons, List.lookup_cons, ih]
  · rw [putEntry_of_not_mem v h, List.lookup_append, List.lookup_cons, hkeys, List.lookup_nil,
      Option.or_none]

/-- The value that is entered last counts. -/
theorem putEntry_putEntry (es : List (Key × Value)) (name : String) (v w : Value) :
    putEntry (putEntry es (.text name) v) (.text name) w = putEntry es (.text name) w := by
  by_cases h : Key.text name ∈ es.map (·.1)
  · have hkeys : (es.map fun e => if e.1 = Key.text name then (e.1, v) else e).map (·.1) =
        es.map (·.1) := by
      rw [List.map_map]
      refine List.map_congr_left fun e _ => ?_
      show (if e.1 = Key.text name then (e.1, v) else e).1 = e.1
      split <;> rfl
    rw [putEntry_of_mem v h, putEntry_of_mem w (hkeys.symm ▸ h), putEntry_of_mem w h, List.map_map]
    refine List.map_congr_left fun e _ => ?_
    by_cases hkey : e.1 = .text name
    · simp only [Function.comp_apply, if_pos hkey]
    · simp only [Function.comp_apply, if_neg hkey]
  · rw [putEntry_of_not_mem v h, putEntry_append_self v w h, putEntry_of_not_mem w h]

/-! ## 3. What has been said -/

/-- What has been gathered under a name. -/
def Gathered.said (g : Gathered) (name : String) : Option Value := g.attributes.lookup (.text name)

namespace Gathered

variable (g : Gathered) (name : String)

@[simp] theorem said_put_self (v : Value) : (g.put name v).said name = some v :=
  lookup_putEntry_self g.attributes name v

theorem said_put_of_ne {name other : String} (v : Value) (h : other ≠ name) :
    (g.put name v).said other = g.said other := lookup_putEntry_of_ne g.attributes v h

@[simp] theorem put_put (v w : Value) : (g.put name v).put name w = g.put name w :=
  congrArg (Gathered.mk · g.references) (putEntry_putEntry g.attributes name v w)

variable {g name}

theorem extend_of_none (h : g.said name = none) (vs : List Value) :
    g.extend name vs = .ok (g.put name (.list vs)) := by
  unfold said at h
  rw [extend, h]

theorem extend_of_list {ws : List Value} (h : g.said name = some (.list ws)) (vs : List Value) :
    g.extend name vs = .ok (g.put name (.list (ws ++ vs))) := by
  unfold said at h
  rw [extend, h]

/-- Values are added to nothing or to a list, and to nothing else. -/
theorem extend_eq_ok {vs : List Value} {next : Gathered} (h : g.extend name vs = .ok next) :
    (g.said name = none ∨ ∃ ws, g.said name = some (.list ws)) ∧
      next = g.put name (.list (((g.said name).getD (.list [])).items ++ vs)) := by
  unfold extend at h
  unfold said
  split at h
  · rename_i hsaid
    cases h
    rw [hsaid]
    exact ⟨.inl rfl, rfl⟩
  · rename_i ws hsaid
    cases h
    rw [hsaid]
    exact ⟨.inr ⟨ws, rfl⟩, rfl⟩
  · cases h

/-- **Values that are added in two goes are added in one**, and refused alike. -/
theorem extend_extend (g : Gathered) (name : String) (vs ws : List Value) :
    (g.extend name vs).bind (·.extend name ws) = g.extend name (vs ++ ws) := by
  cases hfirst : g.extend name vs with
  | ok next =>
      obtain ⟨hsaid, rfl⟩ := extend_eq_ok hfirst
      show (g.put name _).extend name ws = _
      rw [extend_of_list (said_put_self g name _), put_put, List.append_assoc]
      rcases hsaid with hnone | ⟨us, hlist⟩
      · rw [extend_of_none hnone, hnone]
        rfl
      · rw [extend_of_list hlist, hlist]
        rfl
  | error fault =>
      show .error fault = g.extend name (vs ++ ws)
      unfold extend at hfirst ⊢
      split at hfirst
      · cases hfirst
      · cases hfirst
      · exact hfirst.symm

end Gathered

/-! ## 4. Arguments -/

/-- Members of groups go to lists. -/
theorem Kind.alwaysList_of_isGroup {k group : Kind} {f : Field} (hgroup : group.isGroup = true)
    (hf : k.nestField? group = some f) : f.alwaysList = true := by
  cases group <;> cases hgroup <;> cases k <;> cases hf <;> rfl

/-- A nested annotation for a list adds what it stands for. -/
theorem Gathered.nest_list {k : Kind} {a : Note} {f : Field} (g : Gathered)
    (hk : a.kind ≠ .reference) (hf : k.nestField? a.kind = some f) (hl : f.alwaysList = true) :
    g.nest k a = g.extend f.key a.unwrapped := by
  unfold Gathered.nest
  rw [if_neg hk, hf]
  exact if_pos hl

/-- **Arguments behind one another**: the first fault is that of the whole. -/
theorem Gathered.addAll_append_eq (k : Kind) (g : Gathered) (arguments more : List Argument) :
    g.addAll k (arguments ++ more) = (g.addAll k arguments).bind (·.addAll k more) := by
  induction arguments generalizing g with
  | nil => rfl
  | cons arg arguments ih =>
      rw [List.cons_append, Gathered.addAll, Gathered.addAll]
      cases g.add k arg with
      | ok next => exact ih next
      | error fault => rfl

theorem Gathered.addAll_singleton (k : Kind) (g : Gathered) (arg : Argument) :
    g.addAll k [arg] = g.add k arg := by
  rw [Gathered.addAll]
  cases g.add k arg <;> rfl

/-- **Annotations for a list are gathered one by one or all at once.** -/
theorem Gathered.addAll_notes {k c : Kind} {f : Field} (hc : c ≠ .reference)
    (hgroup : c.isGroup = false) (hf : k.nestField? c = some f) (hl : f.alwaysList = true)
    {v : Value} {vs : List Value} (hvs : ∀ w ∈ v :: vs, w.IsNote c) (g : Gathered) :
    g.addAll k ((v :: vs).map .positional) = g.extend f.key (v :: vs) := by
  have hone : ∀ w : Value, w.IsNote c → ∀ g : Gathered,
      g.addAll k [.positional w] = g.extend f.key [w] := by
    intro w hw g
    rw [addAll_singleton, Gathers.add_member hc hgroup hf hl hw]
  obtain ⟨hv, hmore⟩ := List.forall_mem_cons.mp hvs
  induction vs generalizing v g with
  | nil => exact hone v hv g
  | cons w vs ih =>
      obtain ⟨hw, htail⟩ := List.forall_mem_cons.mp hmore
      have hrest : ∀ g : Gathered, g.addAll k ((w :: vs).map .positional) =
          g.extend f.key (w :: vs) := fun g => ih hmore g hw htail
      rw [List.map_cons, ← List.singleton_append, addAll_append_eq, hone v hv, funext hrest,
        extend_extend]
      rfl

/-! ## 5. What is built -/

/-- Arguments that gather the same build the same. -/
theorem Note.build_congr {k : Kind} {arguments arguments' : List Argument}
    (h : Gathered.empty.addAll k arguments = Gathered.empty.addAll k arguments') :
    Note.build k arguments = Note.build k arguments' := by
  unfold Note.build
  rw [h]

/-- What is built is what the check of all that was gathered gives, with the references behind its
    own. -/
theorem Note.build_eq_ok {k : Kind} {arguments : List Argument} {a : Note}
    (h : Note.build k arguments = .ok a) :
    ∃ g b, Gathered.empty.addAll k arguments = .ok g ∧ k.check g.attributes = .ok b ∧
      a = { b with partials := b.partials ++ g.references } := by
  unfold Note.build at h
  cases hg : Gathered.empty.addAll k arguments with
  | error fault =>
      rw [hg] at h
      cases h
  | ok g =>
      rw [hg] at h
      dsimp only at h
      cases hb : k.check g.attributes with
      | error faults =>
          rw [hb] at h
          cases h
      | ok b =>
          rw [hb] at h
          cases h
          exact ⟨g, b, rfl, hb, rfl⟩

theorem Kind.kind_of_check {k : Kind} {es : List (Key × Value)} {a : Note}
    (h : k.check es = .ok a) : a.kind = k := by
  unfold Kind.check Kind.assemble at h
  dsimp only at h
  split at h
  · cases h
    rfl
  · cases h

theorem Note.kind_of_build {k : Kind} {arguments : List Argument} {a : Note}
    (h : Note.build k arguments = .ok a) : a.kind = k := by
  obtain ⟨g, b, -, hb, rfl⟩ := Note.build_eq_ok h
  have hkind := Kind.kind_of_check hb
  exact hkind

end Marginalia

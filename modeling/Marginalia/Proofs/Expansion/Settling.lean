import Marginalia.Proofs.Expansion.Custody

/-!
# Expansion comes to an end and leaves nothing open

Definitions may refer to themselves, to one another in circles and to ids that nobody defines, and
the definitions themselves may grow on the way. As long as no annotation refers to one id twice,
expanding an annotation that is not a group nevertheless

* returns: an annotation follows every id once, what it inserts is of a lower kind, and no list is
  extended by itself (`expandTo_meets` with the custody `orderlyCustody`);
* leaves no reference, neither in the annotation nor anywhere below;
* is final: expanding once more changes nothing and has nothing to say (`expandTo_settled`).
-/

namespace Marginalia

/-! ## 1. What is settled stays as it is -/

section Settled

variable {inner : Expander} {chain : List String} {defs : Definitions}

theorem expandItems_settled {vs : List Value}
    (h : ∀ v ∈ vs, ∃ b, v = .note b ∧ inner chain defs b = .ok ⟨b, defs, []⟩) :
    expandItems inner chain defs vs = .ok ⟨vs, defs, []⟩ := by
  induction vs with
  | nil => rfl
  | cons v vs ih =>
      obtain ⟨b, rfl, hb⟩ := h v List.mem_cons_self
      unfold expandItems
      dsimp only
      rw [hb]
      dsimp only
      rw [ih fun w hw => h w (List.mem_cons_of_mem _ hw)]
      rfl

theorem expandField_settled {a : Note} {f : Field} (hk : a.kind.isGroup = false) (ha : a.Nested)
    (hf : f ∈ a.kind.nestFields)
    (h : ∀ b ∈ a.children, inner chain defs b = .ok ⟨b, defs, []⟩) :
    expandField inner chain a defs f = .ok ⟨a, defs, []⟩ := by
  have hself : a.set f (a.get f) = a := Note.set_get ha.slotted.nodup (ha.mem_keys hf)
  have hchild : ∀ b ∈ (a.get f).notes, inner chain defs b = .ok ⟨b, defs, []⟩ :=
    fun b hb => h b (Note.mem_children.mpr ⟨f, hf, hb⟩)
  unfold expandField
  split
  · rename_i vs hvs
    rw [hvs] at hself hchild
    rw [expandItems_settled fun v hv => ?_]
    · show Except.ok (Expanded.mk (a.set f (.list vs)) defs []) = _
      rw [hself]
    · obtain ⟨b, rfl⟩ := ha.isNote_of_mem hk hf hvs hv
      exact ⟨b, rfl, hchild b (Value.mem_notes_list.mpr hv)⟩
  · rename_i child hnote
    rw [hnote] at hself hchild
    rw [hchild child (Value.mem_notes_note.mpr rfl)]
    show Except.ok (Expanded.mk (a.set f (.note child)) defs []) = _
    rw [hself]
  · rfl

theorem expandFields_settled {a : Note} (hk : a.kind.isGroup = false) (ha : a.Nested)
    (fields : List Field) (hsub : ∀ f ∈ fields, f ∈ a.kind.nestFields)
    (h : ∀ b ∈ a.children, inner chain defs b = .ok ⟨b, defs, []⟩) :
    expandFields inner chain a defs fields = .ok ⟨a, defs, []⟩ := by
  induction fields with
  | nil => rfl
  | cons f fields ih =>
      unfold expandFields
      rw [expandField_settled hk ha (hsub f List.mem_cons_self) h]
      dsimp only
      rw [ih fun g hg => hsub g (List.mem_cons_of_mem f hg)]
      rfl

end Settled

theorem Note.bare_eq {a : Note} (h : a.partials = []) : { a with partials := [] } = a := by
  obtain ⟨kind, id, refs, fields⟩ := a
  cases h
  rfl

/-- **A settled annotation expands to itself**, whatever the definitions are. -/
theorem expandTo_settled (location : String) (depth : Nat) (chain : List String)
    (defs : Definitions) (a : Note) (ha : a.Throughout Note.Settled)
    (hk : a.kind.isGroup = false) (hdepth : a.kind.rank < depth) :
    expandTo location depth chain defs a = .ok ⟨a, defs, []⟩ := by
  induction depth generalizing a with
  | zero => exact absurd hdepth (Nat.not_lt_zero _)
  | succ depth ih =>
      have hroot := ha.root
      have hbelow : ∀ b ∈ a.children, expandTo location depth chain defs b = .ok ⟨b, defs, []⟩ := by
        intro b hb
        obtain ⟨hbk, hlt⟩ := hroot.toNested.kind_of_child hk hb
        exact ih b (ha.child hb) hbk (Nat.lt_of_lt_of_le hlt (Nat.lt_succ_iff.mp hdepth))
      unfold expandTo
      dsimp only
      rw [queue_of_partials_nil defs chain hroot.partials_nil, followIds]
      dsimp only
      rw [Note.bare_eq hroot.partials_nil,
        expandFields_settled hk hroot.toNested a.kind.nestFields (fun _ h => h) hbelow]
      rfl

/-! ## 2. The main statement -/

/-- **Expansion is complete and final.** For every annotation that is not a group, in which as in
    the definitions no annotation refers to one id twice, expansion returns; no reference is left in
    the annotation or below it; and a second expansion, with the definitions as they were or as they
    are by now, changes neither the annotation nor the definitions and has nothing to say. -/
theorem expand_complete_and_final (location : String) (defs : Definitions) (a : Note)
    (hk : a.kind.isGroup = false)
    (ha : a.Throughout fun b => b.Fresh ∧ b.partials.Nodup)
    (hdefs : ∀ id d, defs.find? id = some d → d.Throughout fun b => b.Fresh ∧ b.partials.Nodup) :
    ∃ x, expand location defs a = .ok x ∧ x.result.kind = a.kind ∧
      (x.result.Throughout fun b => b.partials = []) ∧
      ∀ again now, expand again now x.result = .ok ⟨x.result, now, []⟩ := by
  have horderly : ∀ {c : Note}, (c.Throughout fun b => b.Fresh ∧ b.partials.Nodup) →
      c.Throughout (Note.Orderly True) := fun h => h.mono fun _ hb => ⟨hb.1, fun _ => hb.2⟩
  have hrun := expandTo_meets (orderlyCustody True fun id => (defs.find? id).map (·.kind)) location
    (expansionDepth defs a) [] defs a ⟨fun id d hd => horderly (hdefs id d hd), fun _ => rfl⟩
    ((horderly ha).mono fun _ h => h.ready) fun _ => ⟨hk, rank_lt_expansionDepth defs a⟩
  unfold expand
  cases hx : expandTo location (expansionDepth defs a) [] defs a with
  | error e =>
      rw [hx] at hrun
      exact absurd trivial hrun
  | ok x =>
      rw [hx] at hrun
      obtain ⟨hxk, hxs, -⟩ := hrun
      refine ⟨x, rfl, hxk, hxs.mono fun _ h => h.partials_nil, fun again now => ?_⟩
      exact expandTo_settled again _ [] now x.result hxs (hxk ▸ hk)
        (rank_lt_expansionDepth now x.result)

/-- A resource that refers to an API which refers to itself, and below it to operations that refer
    to one another and extend one another's lists. -/
theorem expand_circular_references :
    ∃ x, expand "pets.php"
        [("loop", Note.referring .api ["loop", "ping", "gone"]),
          ("ping", (Note.referring .operation ["pong"]).set .produces
            (.list [.text "xml"])),
          ("pong", (Note.referring .operation ["ping", "loop"]).set .produces
            (.list [.text "json"]))]
        (Note.referring .resource ["loop", "none"]) = .ok x ∧
      x.result.kind = .resource ∧ (x.result.Throughout fun b => b.partials = []) ∧
      ∀ again now, expand again now x.result = .ok ⟨x.result, now, []⟩ := by
  have horderly : ∀ {c : Note}, c.Throughout (Note.Orderly True) →
      c.Throughout fun b => b.Fresh ∧ b.partials.Nodup :=
    fun h => h.mono fun _ hb => ⟨hb.toFresh, hb.partials_nodup trivial⟩
  refine expand_complete_and_final "pets.php" _ _ rfl ?_ fun id d hd => ?_
  · exact horderly (.referring .resource ["loop", "none"] fun _ => by decide)
  · rcases List.mem_cons.mp (Definitions.mem_of_find? hd) with heq | hd
    · cases heq
      exact horderly (.referring .api ["loop", "ping", "gone"] fun _ => by decide)
    rcases List.mem_cons.mp hd with heq | hd
    · cases heq
      exact horderly (.set_list (.referring .operation ["pong"] fun _ => by decide) _ (by decide))
    · cases List.mem_singleton.mp hd
      exact horderly
        (.set_list (.referring .operation ["ping", "loop"] fun _ => by decide) _ (by decide))

end Marginalia

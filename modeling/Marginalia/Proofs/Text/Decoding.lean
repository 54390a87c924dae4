import Marginalia.Text.Utf8

/-!
# Where text stands in its bytes

Bytes that are no well-formed sequence are read as replacement characters, so reading does not take
apart as bytes do. But wherever the text that was read is cut, the bytes can be cut to match:

* `decode_cut`: the bytes that `extent` counts, and those behind them, are read as the two parts of
  the text. A sequence that has begun is read up to where it fails, and what follows starts afresh,
  so both are said of bytes behind such a sequence, too (`Cuttable`);
* `count_decode`: line feeds are as many in the text as in the bytes, since no byte of a longer
  sequence is one, and no longer sequence is read as one (`Pending.Large`).
-/

namespace Marginalia.Text

/-! ## 1. Steps -/

/-- Whatever a sequence goes on with, its code point is greater than that of any single byte: what
    is known of it behind the next byte is large enough, even if no other byte follows. -/
structure Pending.Large (p : Pending) : Prop where
  low : 0x80 ≤ p.low
  code : 2 ≤ p.code * 0x40 + (p.low - 0x80)
  last : p.more = 0 → 0x80 ≤ p.code * 0x40 + (p.low - 0x80)

/-- **What a byte is at the start of a sequence**: a character, a byte that starts nothing, or the
    first byte of a longer sequence. -/
inductive Opens (b : UInt8) : List Char × Option Pending → Prop
  | single (small : b.toNat < 0x80) : Opens b ([Char.ofNat b.toNat], none)
  | stray (large : 0x80 ≤ b.toNat) : Opens b ([replacement], none)
  | begun {p : Pending} (large : 0x80 ≤ b.toNat) (begins : p.Large) : Opens b ([], some p)

theorem opens_openSequence (b : UInt8) : Opens b (openSequence b) := by
  unfold openSequence
  dsimp only
  refine iteInduction .single fun hsmall => ?_
  have hlarge : 0x80 ≤ b.toNat := Nat.le_of_not_lt hsmall
  have hbegun : ∀ {low high more code : Nat}, 0x80 ≤ low → 2 ≤ code * 0x40 + (low - 0x80) →
      (more = 0 → 0x80 ≤ code * 0x40 + (low - 0x80)) →
      Opens b ([], some ⟨low, high, more, code⟩) := fun hlow hcode hlast =>
    .begun hlarge ⟨hlow, hcode, hlast⟩
  refine iteInduction (fun _ => .stray hlarge) fun hC2 => ?_
  refine iteInduction (fun _ => hbegun (by omega) (by omega) (by omega)) fun hE0 => ?_
  refine iteInduction (fun _ => hbegun (by omega) (by omega) (by omega)) fun hE0' => ?_
  refine iteInduction (fun _ => hbegun (by omega) (by omega) (by omega)) fun hED => ?_
  refine iteInduction (fun _ => hbegun (by omega) (by omega) (by omega)) fun hF0 => ?_
  refine iteInduction (fun _ => hbegun (by omega) (by omega) (by omega)) fun hF0' => ?_
  refine iteInduction (fun _ => hbegun (by omega) (by omega) (by omega)) fun hF4 => ?_
  refine iteInduction (fun _ => hbegun (by omega) (by omega) (by omega)) fun _ => ?_
  exact .stray hlarge

/-- A byte either completes a character or opens a sequence. -/
theorem openSequence_cases (b : UInt8) :
    (∃ c, openSequence b = ([c], none)) ∨ ∃ p, openSequence b = ([], some p) := by
  have hopens := opens_openSequence b
  generalize openSequence b = step at hopens ⊢
  cases hopens with
  | single => exact .inl ⟨_, rfl⟩
  | stray => exact .inl ⟨_, rfl⟩
  | begun => exact .inr ⟨_, rfl⟩

/-- The code point of a sequence with one more byte. -/
def Pending.codeWith (p : Pending) (b : UInt8) : Nat := p.code * 0x40 + (b.toNat - 0x80)

/-- A byte that goes on with a sequence completes its character, or leaves it open. -/
theorem goOn_of_takes {p : Pending} {b : UInt8} (h : p.takes b) :
    (p.more = 0 ∧ goOn p b = ([Char.ofNat (p.codeWith b)], none)) ∨
      ∃ more, p.more = more + 1 ∧ goOn p b = ([], some ⟨0x80, 0xBF, more, p.codeWith b⟩) := by
  unfold goOn
  rw [if_pos h]
  cases hmore : p.more with
  | zero => exact .inl ⟨rfl, rfl⟩
  | succ more => exact .inr ⟨more, rfl, rfl⟩

theorem goOn_cases {p : Pending} {b : UInt8} (h : p.takes b) :
    (∃ c, goOn p b = ([c], none)) ∨ ∃ q, goOn p b = ([], some q) := by
  rcases goOn_of_takes h with ⟨-, hgoOn⟩ | ⟨more, -, hgoOn⟩
  · exact .inl ⟨_, hgoOn⟩
  · exact .inr ⟨_, hgoOn⟩

/-- A byte that does not go on with a sequence ends it, and starts afresh. -/
theorem decodeFrom_of_not_takes {p : Pending} {b : UInt8} (h : ¬p.takes b) (rest : List UInt8) :
    decodeFrom (some p) (b :: rest) = replacement :: decodeFrom none (b :: rest) := by
  have hgoOn : goOn p b = (replacement :: (openSequence b).1, (openSequence b).2) := by
    unfold goOn
    rw [if_neg h]
  have hstep : decodeFrom (some p) (b :: rest) = (goOn p b).1 ++ decodeFrom (goOn p b).2 rest := rfl
  rw [hstep, hgoOn]
  rfl

/-! ## 2. Cutting -/

theorem extentFrom_none {n : Nat} (hn : n ≠ 0) (b : UInt8) (rest : List UInt8) :
    extentFrom n none (b :: rest) =
      extentFrom (n - (openSequence b).1.length) (openSequence b).2 rest + 1 := by
  rw [extentFrom, if_neg hn, Nat.add_comm]

theorem extentFrom_of_takes (n : Nat) {p : Pending} {b : UInt8} (h : p.takes b)
    (rest : List UInt8) :
    extentFrom n (some p) (b :: rest) =
      extentFrom (n - (goOn p b).1.length) (goOn p b).2 rest + 1 := by
  rw [extentFrom, if_pos h, Nat.add_comm]

/-- A byte that does not go on with a sequence is counted as one of what follows. -/
theorem extentFrom_of_not_takes (n : Nat) {p : Pending} {b : UInt8} (h : ¬p.takes b)
    (rest : List UInt8) :
    extentFrom (n + 1) (some p) (b :: rest) = extentFrom n none (b :: rest) := by
  cases n with
  | zero =>
      have hzero : extentFrom 0 none (b :: rest) = 0 := by rw [extentFrom, if_pos rfl]
      rw [hzero, extentFrom, if_neg h, if_pos (Nat.le_refl 1)]
  | succ n =>
      rw [extentFrom_none (Nat.succ_ne_zero n), extentFrom, if_neg h, if_neg (by omega),
        Nat.add_sub_cancel, Nat.add_comm]

theorem extentFrom_le (n : Nat) (state : Option Pending) (bytes : List UInt8) :
    extentFrom n state bytes ≤ bytes.length := by
  induction bytes generalizing n state with
  | nil => cases state <;> exact Nat.le_refl 0
  | cons b rest ih =>
      have hnone : ∀ m, extentFrom m none (b :: rest) ≤ rest.length + 1 := by
        intro m
        by_cases hm : m = 0
        · rw [extentFrom, if_pos hm]
          exact Nat.zero_le _
        · rw [extentFrom_none hm]
          exact Nat.succ_le_succ (ih _ _)
      cases state with
      | none => exact hnone n
      | some p =>
          by_cases htakes : p.takes b
          · rw [extentFrom_of_takes n htakes]
            exact Nat.succ_le_succ (ih _ _)
          · cases n with
            | zero =>
                rw [extentFrom, if_neg htakes, if_pos (Nat.zero_le 1)]
                exact Nat.zero_le _
            | succ n =>
                rw [extentFrom_of_not_takes n htakes]
                exact hnone n

/-- **A cut of bytes, a sequence having possibly begun before them**: those that are counted for a
    text are read as that, and those behind them as another one. -/
structure IsCut (state : Option Pending) (bytes : List UInt8) (x y : List Char) : Prop where
  front : decodeFrom state (bytes.take (extentFrom x.length state bytes)) = x
  back : decodeFrom none (bytes.drop (extentFrom x.length state bytes)) = y

/-- **The bytes can be cut where their text is cut.** If a sequence has begun before them, the first
    part must not be empty, since it takes what the sequence is read as. -/
structure Cuttable (bytes : List UInt8) : Prop where
  afresh : ∀ x y, decodeFrom none bytes = x ++ y → IsCut none bytes x y
  begun : ∀ p x y, x ≠ [] → decodeFrom (some p) bytes = x ++ y → IsCut (some p) bytes x y

section Cuts

variable {b : UInt8} {rest : List UInt8} {c : Char} {x y : List Char}

theorem Cuttable.nil : Cuttable [] := by
  constructor
  · intro x y h
    obtain ⟨rfl, rfl⟩ := List.append_eq_nil_iff.mp h.symm
    exact ⟨rfl, rfl⟩
  · intro p x y hx h
    cases x with
    | nil => exact absurd rfl hx
    | cons c x =>
        obtain ⟨rfl, hrest⟩ := List.cons.inj h
        obtain ⟨rfl, rfl⟩ := List.append_eq_nil_iff.mp hrest.symm
        exact ⟨rfl, rfl⟩

/-- A byte that completes a character, or leaves a sequence open, belongs to the first part. -/
theorem Cuttable.step {state : Option Pending} {result : List Char × Option Pending}
    (hrest : Cuttable rest)
    (hresult : (∃ d, result = ([d], none)) ∨ ∃ p, result = ([], some p))
    (hdecode : ∀ bytes, decodeFrom state (b :: bytes) = result.1 ++ decodeFrom result.2 bytes)
    (hextent : extentFrom (x.length + 1) state (b :: rest) =
      extentFrom (x.length + 1 - result.1.length) result.2 rest + 1)
    (h : decodeFrom state (b :: rest) = c :: x ++ y) : IsCut state (b :: rest) (c :: x) y := by
  have hcut : decodeFrom state ((b :: rest).take (extentFrom (x.length + 1) state (b :: rest))) =
        c :: x ∧
      decodeFrom none ((b :: rest).drop (extentFrom (x.length + 1) state (b :: rest))) = y := by
    rw [hdecode] at h
    rw [hextent, List.take_succ_cons, List.drop_succ_cons, hdecode]
    rcases hresult with ⟨d, rfl⟩ | ⟨p, rfl⟩
    · obtain ⟨rfl, htail⟩ := List.cons.inj h
      obtain ⟨hfront, hback⟩ := hrest.afresh x y htail
      exact ⟨congrArg (d :: ·) hfront, hback⟩
    · obtain ⟨hfront, hback⟩ := hrest.begun p (c :: x) y (List.cons_ne_nil c x) h
      exact ⟨hfront, hback⟩
  exact ⟨hcut.1, hcut.2⟩

/-- A sequence that fails is one more character in front of what follows. -/
theorem IsCut.of_not_takes {p : Pending} (htakes : ¬p.takes b) (h : IsCut none (b :: rest) x y) :
    IsCut (some p) (b :: rest) (replacement :: x) y := by
  obtain ⟨hfront, hback⟩ := h
  constructor
  · rw [List.length_cons, extentFrom_of_not_takes _ htakes]
    -- Either nothing of the byte belongs to the first part, or it ends the sequence.
    cases hextent : extentFrom x.length none (b :: rest) with
    | zero =>
        rw [hextent] at hfront
        exact congrArg (replacement :: ·) hfront
    | succ n =>
        rw [hextent, List.take_succ_cons] at hfront
        rw [List.take_succ_cons, decodeFrom_of_not_takes htakes, hfront]
  · rw [List.length_cons, extentFrom_of_not_takes _ htakes]
    exact hback

theorem Cuttable.cons (hrest : Cuttable rest) (b : UInt8) : Cuttable (b :: rest) := by
  have hafresh : ∀ x y, decodeFrom none (b :: rest) = x ++ y → IsCut none (b :: rest) x y := by
    intro x y h
    cases x with
    | nil =>
        have hzero : extentFrom 0 none (b :: rest) = 0 := by rw [extentFrom, if_pos rfl]
        constructor
        · rw [List.length_nil, hzero]
          rfl
        · rw [List.length_nil, hzero]
          exact h
    | cons c x =>
        have hextent := extentFrom_none (Nat.succ_ne_zero x.length) b rest
        exact hrest.step (openSequence_cases b) (fun _ => rfl) hextent h
  refine ⟨hafresh, fun p x y hx h => ?_⟩
  cases x with
  | nil => exact absurd rfl hx
  | cons c x =>
      by_cases htakes : p.takes b
      · exact hrest.step (goOn_cases htakes) (fun _ => rfl) (extentFrom_of_takes _ htakes rest) h
      · rw [decodeFrom_of_not_takes htakes] at h
        obtain ⟨rfl, htail⟩ := List.cons.inj h
        exact (hafresh x y htail).of_not_takes htakes

theorem cuttable (bytes : List UInt8) : Cuttable bytes := by
  induction bytes with
  | nil => exact .nil
  | cons b rest ih => exact ih.cons b

end Cuts

theorem extent_le (n : Nat) (bytes : List UInt8) : extent n bytes ≤ bytes.length :=
  extentFrom_le n none bytes

/-- **Wherever a text that was read is cut, its bytes are cut to match.** -/
theorem decode_cut {bytes : List UInt8} {x y : List Char} (h : decode bytes = x ++ y) :
    decode (bytes.take (extent x.length bytes)) = x ∧
      decode (bytes.drop (extent x.length bytes)) = y := by
  obtain ⟨hfront, hback⟩ := (cuttable bytes).afresh x y h
  exact ⟨hfront, hback⟩

theorem markLength_le (bytes : List UInt8) : markLength bytes ≤ bytes.length := by
  unfold markLength
  split
  · exact (List.isPrefixOf_iff_prefix.mp ‹_›).length_le
  · exact Nat.zero_le _

/-! ## 3. Line feeds -/

/-- The code point grows with the byte. -/
theorem Pending.le_codeWith {p : Pending} {b : UInt8} (hb : p.takes b) :
    p.code * 0x40 + (p.low - 0x80) ≤ p.codeWith b := by
  have hlow := hb.1
  unfold Pending.codeWith
  omega

theorem ofNat_eq_lineFeed_iff {n : Nat} : Char.ofNat n = '\n' ↔ n = 0x0A := by
  constructor
  · intro heq
    have hval := congrArg Char.toNat heq
    by_cases hn : n.isValidChar
    · rw [Char.ofNat, dif_pos hn] at hval
      exact hval
    · rw [Char.ofNat, dif_neg hn] at hval
      cases hval
  · rintro rfl
    rfl

theorem eq_lineFeed_iff {b : UInt8} : b = 0x0A ↔ b.toNat = 0x0A := UInt8.toNat_inj.symm

/-- A character that one byte completes is a line feed exactly if the byte is. -/
theorem lineFeed_iff_of_openSequence {b : UInt8} {c : Char} (h : openSequence b = ([c], none)) :
    c = '\n' ↔ b = 0x0A := by
  rw [eq_lineFeed_iff]
  have hopens := opens_openSequence b
  rw [h] at hopens
  cases hopens with
  | single => exact ofNat_eq_lineFeed_iff
  | stray large => exact iff_of_false (by decide) (by omega)

/-- A byte that begins a sequence is no line feed, and the sequence is none either. -/
theorem large_of_openSequence {b : UInt8} {p : Pending} (h : openSequence b = ([], some p)) :
    b ≠ 0x0A ∧ p.Large := by
  have hopens := opens_openSequence b
  rw [h] at hopens
  cases hopens with
  | begun large begins =>
      refine ⟨fun hb => ?_, begins⟩
      rw [eq_lineFeed_iff] at hb
      omega

theorem count_decodeFrom {state : Option Pending} (h : ∀ p ∈ state, p.Large)
    (bytes : List UInt8) : (decodeFrom state bytes).count '\n' = bytes.count 0x0A := by
  induction bytes generalizing state with
  | nil => cases state <;> rfl
  | cons b rest ih =>
      have hnone : (decodeFrom none (b :: rest)).count '\n' = (b :: rest).count 0x0A := by
        rw [decodeFrom]
        rcases openSequence_cases b with ⟨c, hopen⟩ | ⟨p, hopen⟩
        · have hrest : (decodeFrom none rest).count '\n' = rest.count 0x0A := ih nofun
          rw [hopen, List.singleton_append, List.count_cons, List.count_cons, hrest]
          simp only [beq_iff_eq, lineFeed_iff_of_openSequence hopen]
        · obtain ⟨hb, hbegins⟩ := large_of_openSequence hopen
          have hlarge : ∀ q ∈ some p, q.Large := by
            rintro q ⟨⟩
            exact hbegins
          rw [hopen, List.nil_append, ih hlarge, List.count_cons_of_ne hb]
      cases state with
      | none => exact hnone
      | some p =>
          have hp : p.Large := h p rfl
          by_cases htakes : p.takes b
          · have hb : b ≠ 0x0A := by
              rw [Ne, eq_lineFeed_iff]
              have hlow := hp.low
              have hbyte := htakes.1
              omega
            rw [decodeFrom, List.count_cons_of_ne hb]
            have hgrows := Pending.le_codeWith htakes
            rcases goOn_of_takes htakes with ⟨hmore, hgoOn⟩ | ⟨more, -, hgoOn⟩
            · have hcode : 0x80 ≤ p.codeWith b := Nat.le_trans (hp.last hmore) hgrows
              have hchar : Char.ofNat (p.codeWith b) ≠ '\n' := by
                rw [Ne, ofNat_eq_lineFeed_iff]
                omega
              rw [hgoOn, List.singleton_append, List.count_cons_of_ne hchar]
              exact ih nofun
            · have hcode : 2 ≤ p.codeWith b := Nat.le_trans hp.code hgrows
              have hlarge : ∀ q ∈ some (Pending.mk 0x80 0xBF more (p.codeWith b)), q.Large := by
                rintro q ⟨⟩
                exact ⟨Nat.le_refl _, by dsimp only; omega, fun _ => by dsimp only; omega⟩
              rw [hgoOn, List.nil_append]
              exact ih hlarge
          · have hreplacement : replacement ≠ '\n' := by decide
            rw [decodeFrom_of_not_takes htakes, List.count_cons_of_ne hreplacement]
            exact hnone

/-- **A text has as many line feeds as its bytes.** -/
theorem count_decode (bytes : List UInt8) :
    (decode bytes).count '\n' = bytes.count 0x0A := by
  have hstart : ∀ p ∈ (none : Option Pending), p.Large := nofun
  exact count_decodeFrom hstart bytes

end Marginalia.Text

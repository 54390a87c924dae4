/-!
# Bytes as text

Source files are bytes, and nothing promises that they are well-formed UTF-8. Reading never
fails: every maximal piece that cannot go on to a well-formed sequence becomes one replacement
character, and reading starts afresh at the byte that did not fit.

* `Pending` is a sequence that has begun: how many bytes it still needs and which byte may come
  next. The first continuation byte is the restricted one (no overlong forms, no surrogates,
  nothing above the last code point);
* `decode` runs over the bytes once, structurally;
* `extent` counts the bytes that the first characters are read from.
-/

namespace Marginalia.Text

/-- The character that stands for what cannot be decoded. -/
def replacement : Char := '\uFFFD'

/-- A multi-byte sequence that has begun. -/
structure Pending where
  /-- The least byte that may come next. -/
  low : Nat
  /-- The greatest byte that may come next. -/
  high : Nat
  /-- How many bytes are missing, less one. -/
  more : Nat
  /-- The code point as far as it has been read. -/
  code : Nat

/-- What a byte means at the start of a sequence: the characters it completes, and the sequence it
    opens. -/
def openSequence (b : UInt8) : List Char × Option Pending :=
  let n := b.toNat
  if n < 0x80 then ([Char.ofNat n], none)
  else if n < 0xC2 then ([replacement], none)
  else if n < 0xE0 then ([], some ⟨0x80, 0xBF, 0, n - 0xC0⟩)
  else if n = 0xE0 then ([], some ⟨0xA0, 0xBF, 1, 0⟩)
  else if n = 0xED then ([], some ⟨0x80, 0x9F, 1, 0xD⟩)
  else if n < 0xF0 then ([], some ⟨0x80, 0xBF, 1, n - 0xE0⟩)
  else if n = 0xF0 then ([], some ⟨0x90, 0xBF, 2, 0⟩)
  else if n < 0xF4 then ([], some ⟨0x80, 0xBF, 2, n - 0xF0⟩)
  else if n = 0xF4 then ([], some ⟨0x80, 0x8F, 2, 4⟩)
  else ([replacement], none)

/-- Whether a byte goes on with a sequence. -/
def Pending.takes (p : Pending) (b : UInt8) : Prop := p.low ≤ b.toNat ∧ b.toNat ≤ p.high

instance (p : Pending) (b : UInt8) : Decidable (p.takes b) :=
  inferInstanceAs (Decidable (_ ∧ _))

/-- What a byte means inside a sequence. -/
def goOn (p : Pending) (b : UInt8) : List Char × Option Pending :=
  if p.takes b then
    let code := p.code * 0x40 + (b.toNat - 0x80)
    match p.more with
    | 0 => ([Char.ofNat code], none)
    | more + 1 => ([], some ⟨0x80, 0xBF, more, code⟩)
  else
    let (chars, next) := openSequence b
    (replacement :: chars, next)

/-- Reads bytes as text, a sequence having possibly begun before them. -/
def decodeFrom : Option Pending → List UInt8 → List Char
  | none, [] => []
  | some _, [] => [replacement]
  | none, b :: rest => (openSequence b).1 ++ decodeFrom (openSequence b).2 rest
  | some p, b :: rest => (goOn p b).1 ++ decodeFrom (goOn p b).2 rest

/-- Reads bytes as text. -/
def decode (bytes : List UInt8) : List Char := decodeFrom none bytes

/-- The number of bytes that the first `n` characters are read from, a sequence having possibly
    begun before them. A byte that does not go on with a sequence is not one of its own. -/
def extentFrom (n : Nat) : Option Pending → List UInt8 → Nat
  | _, [] => 0
  | none, b :: rest =>
    if n = 0 then 0
    else 1 + extentFrom (n - (openSequence b).1.length) (openSequence b).2 rest
  | some p, b :: rest =>
    if p.takes b then 1 + extentFrom (n - (goOn p b).1.length) (goOn p b).2 rest
    else if n ≤ 1 then 0
    else 1 + extentFrom (n - 1 - (openSequence b).1.length) (openSequence b).2 rest

/-- The number of bytes that the first `n` characters are read from. -/
def extent (n : Nat) (bytes : List UInt8) : Nat := extentFrom n none bytes

/-- The mark that may stand in front of a text; it is no part of the text. -/
def byteOrderMark : List UInt8 := [0xEF, 0xBB, 0xBF]

/-- The number of bytes in front of the text. -/
def markLength (bytes : List UInt8) : Nat :=
  if byteOrderMark.isPrefixOf bytes then byteOrderMark.length else 0

end Marginalia.Text

import Marginalia.Number.Binary64

/-!
# The shortest decimal that reads back

A double is printed with the fewest digits that still read back as the same double, and of those
the nearest to it. The reals that round to `m · 2 ^ e` form an interval around it, the ends
included iff `m` is even; for one, two, … digits the two neighbours of the double on that decimal
grid are tried.

How the digits are laid out is a `Layout`: where positional notation begins, and how an exponent
is written.
-/

namespace Marginalia.Number

/-! ## 1. Digits -/

/-- Compares `a · 2 ^ p` with `b · 10 ^ k`, for any signs of the exponents. -/
def compareScaled (a : Nat) (p : Int) (b : Nat) (k : Int) : Ordering :=
  let left := a * twoTo p.toNat * tenTo (-k).toNat
  let right := b * tenTo k.toNat * twoTo (-p).toNat
  compare left right

/-- The interval of the reals that round to `m · 2 ^ e`, as its ends in units of
    `2 ^ (e - 2)`. -/
def roundingEnds (m : Nat) (e : Int) : Nat × Nat :=
  (if m = twoTo 52 && Binary64.minExponent < e then 4 * m - 1 else 4 * m - 2, 4 * m + 2)

/-- Whether `d · 10 ^ k` reads back as `m · 2 ^ e`. -/
def readsBack (m : Nat) (e : Int) (d : Nat) (k : Int) : Bool :=
  let (low, high) := roundingEnds m e
  match compareScaled low (e - 2) d k, compareScaled high (e - 2) d k with
  | .lt, .gt => true
  | .eq, _ | _, .eq => m % 2 = 0
  | _, _ => false

/-- `m · 2 ^ e / 10 ^ k`, rounded down. -/
def gridFloor (m : Nat) (e k : Int) : Nat :=
  (m * twoTo e.toNat * tenTo (-k).toNat) / (tenTo k.toNat * twoTo (-e).toNat)

/-- Whether `d · 10 ^ k` is at most as far below `m · 2 ^ e` as `(d + 1) · 10 ^ k` is above. -/
def floorIsNearer (m : Nat) (e : Int) (d : Nat) (k : Int) : Bool :=
  match compareScaled (2 * m) e (2 * d + 1) k with
  | .lt => true
  | .eq => d % 2 = 0
  | .gt => false

/-- The neighbour of the double on the grid of `10 ^ k` that reads back, the nearer one first. -/
def onGrid? (m : Nat) (e k : Int) : Option Nat :=
  let d := gridFloor m e k
  let (near, far) := if floorIsNearer m e d k then (d, d + 1) else (d + 1, d)
  if readsBack m e near k then some near
  else if readsBack m e far k then some far
  else none

/-- The power of ten just above `m · 2 ^ e`, by a search among `fuel` powers from `k` on. -/
def tenAbove (m : Nat) (e : Int) : Nat → Int → Int
  | 0, k => k
  | fuel + 1, k => if compareScaled m e 1 k == .lt then k else tenAbove m e fuel (k + 1)

/-- Tries grids from coarse to fine. -/
def searchGrids (m : Nat) (e : Int) : Nat → Int → Nat × Int
  | 0, k => (gridFloor m e k, k)
  | fuel + 1, k =>
    match onGrid? m e k with
    | some d => (d, k)
    | none => searchGrids m e fuel (k - 1)

/-- Moves the zeros at the end of the coefficient into the exponent. -/
def dropZeros : Nat → Nat → Int → Nat × Int
  | 0, d, k => (d, k)
  | fuel + 1, d, k => if d % 10 = 0 && d ≠ 0 then dropZeros fuel (d / 10) (k + 1) else (d, k)

/-- The shortest decimal `d · 10 ^ k` that reads back as `m · 2 ^ e`. -/
def shortest (m : Nat) (e : Int) : Nat × Int :=
  let guess : Int := ((m.log2 : Int) + e) * 30103 / 100000 - 1
  let top := tenAbove m e 8 guess
  let (d, k) := searchGrids m e 17 (top - 1)
  dropZeros 20 d k

/-! ## 2. Layout -/

/-- How digits are laid out. -/
structure Layout where
  /-- The point may stand this far to the left of the first digit, not further. -/
  leastPoint : Int
  /-- The point may stand this far to the right of the first digit, not further. -/
  greatestPoint : Int
  /-- The least number of digits of an exponent. -/
  exponentWidth : Nat

/-- `n` as decimal digits, padded with zeros to `width`. -/
def padded (width n : Nat) : List Char :=
  let digits := Text.natDigits n
  List.replicate (width - digits.length) '0' ++ digits

/-- The written exponent, with its sign. -/
def Layout.exponent (layout : Layout) (k : Int) : List Char :=
  'e' :: (if k < 0 then '-' else '+') ::
    padded layout.exponentWidth k.natAbs

/-- The digits of `d · 10 ^ k` laid out. -/
def Layout.digits (layout : Layout) (d : Nat) (k : Int) : List Char :=
  let ds := Text.natDigits d
  let point : Int := ds.length + k
  if layout.leastPoint ≤ point && point ≤ layout.greatestPoint then
    if 0 ≤ k then ds ++ List.replicate k.toNat '0' ++ ['.', '0']
    else if 0 < point then ds.take point.toNat ++ '.' :: ds.drop point.toNat
    else '0' :: '.' :: List.replicate (-point).toNat '0' ++ ds
  else match ds with
    | [only] => only :: layout.exponent (point - 1)
    | first :: more => first :: '.' :: more ++ layout.exponent (point - 1)
    | [] => []

/-- A finite double as text; an infinity has no digits. -/
def Layout.text? (layout : Layout) : Binary64 → Option String
  | .infinite _ => none
  | .finite negative m e =>
    let body := if m = 0 then ['0', '.', '0'] else layout.digits (shortest m e).1 (shortest m e).2
    some (String.ofList (if negative then '-' :: body else body))

end Marginalia.Number

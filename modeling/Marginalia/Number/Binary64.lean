import Marginalia.Number.Decimal

/-!
# Double-precision numbers

A double is `± mantissa · 2 ^ exponent` or an infinity; there is no literal for anything else.

* the mantissa has at most 53 bits and the exponent is at least `-1074`; a mantissa of fewer bits
  stands only with that least exponent, so equal numbers other than the zeros are equal values;
* `ofDecimal` rounds a decimal to the nearest double, a tie to the even mantissa, in exact
  arithmetic on natural numbers;
* `toBits` is the interchange format.
-/

namespace Marginalia.Number

/-- A double-precision number. -/
inductive Binary64 where
  | finite (negative : Bool) (mantissa : Nat) (exponent : Int)
  | infinite (negative : Bool)
deriving DecidableEq, Repr

namespace Binary64

/-- The least exponent, that of the subnormal numbers. -/
def minExponent : Int := -1074

/-- The greatest exponent of a finite number. -/
def maxExponent : Int := 971

/-- `num / den` rounded to the nearest whole number, a tie to the even one. -/
def roundQuotient (num den : Nat) : Nat :=
  let q := num / den
  let twice := 2 * (num % den)
  if twice < den then q
  else if den < twice then q + 1
  else if q % 2 = 0 then q else q + 1

/-- `num / (den · 2 ^ e)` rounded to the nearest whole number. -/
def scaled (num den : Nat) (e : Int) : Nat :=
  if 0 ≤ e then roundQuotient num (den * twoTo e.toNat)
  else roundQuotient (num * twoTo (-e).toNat) den

/-- Whether `num / (den · 2 ^ e)` is below `2 ^ 52`. -/
def isShort (num den : Nat) (e : Int) : Bool :=
  if 0 ≤ e then num < den * twoTo e.toNat * twoTo 52
  else num * twoTo (-e).toNat < den * twoTo 52

/-- The double nearest to `± num / den`. -/
def ofRatio (negative : Bool) (num den : Nat) : Binary64 :=
  let guess : Int := (num.log2 : Int) - den.log2 - 52
  let fitted := if isShort num den guess then guess - 1 else guess
  let e := max minExponent fitted
  let m := scaled num den e
  let (m, e) := if m = twoTo 53 then (twoTo 52, e + 1) else (m, e)
  if maxExponent < e then .infinite negative else .finite negative m e

/-- The double nearest to a decimal. A decimal beyond every double, or below half the least one,
    is settled by its size alone. -/
def ofDecimal (d : Decimal) : Binary64 :=
  let size : Int := (Text.natDigits d.coefficient).length + d.exponent
  if d.coefficient = 0 || size < -330 then .finite d.negative 0 minExponent
  else if 310 < size then .infinite d.negative
  else if 0 ≤ d.exponent then ofRatio d.negative (d.coefficient * tenTo d.exponent.toNat) 1
  else ofRatio d.negative d.coefficient (tenTo (-d.exponent).toNat)

/-- The interchange format: sign, biased exponent, mantissa without its leading bit. -/
def toBits : Binary64 → Nat
  | .infinite negative => (if negative then twoTo 63 else 0) + 0x7FF * twoTo 52
  | .finite negative m e =>
    (if negative then twoTo 63 else 0) +
      (if m < twoTo 52 then m else (e + 1075).toNat * twoTo 52 + (m - twoTo 52))

/-- The whole number that a double is, if it is one. -/
def toInt? : Binary64 → Option Int
  | .infinite _ => none
  | .finite negative m e =>
    if 0 ≤ e then some (signed negative (m * twoTo e.toNat))
    else if m % twoTo (-e).toNat = 0 then some (signed negative (m / twoTo (-e).toNat))
    else none

/-- Whether two doubles are the same number: the zeros are one number. -/
def sameNumber (x y : Binary64) : Bool :=
  x == y || (x.toInt? == some 0 && y.toInt? == some 0)

end Binary64

end Marginalia.Number

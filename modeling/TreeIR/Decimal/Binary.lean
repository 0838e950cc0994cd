/-!
# Finite binary fractions

A number that is not a small integer is kept as a double-precision value. Only its magnitude is
modelled, as an exact pair of naturals: `mantissa · 2 ^ exponent` with at most 53 bits of mantissa
and an exponent of at least -1074. A pair is canonical if it uses all 53 bits or stands on the
lowest exponent; every rounding below returns a canonical pair, so equal values are equal pairs.

All arithmetic is exact up to one rounding: the result of an operation is written as a ratio of
naturals and `ofRatio?` takes the nearest pair, the one with the even mantissa if two are as near.
It fails if the ratio lies beyond the largest finite value.
-/

namespace TreeIR.Decimal

/-- The magnitude `mantissa · 2 ^ exponent`. -/
structure Binary where
  mantissa : Nat
  exponent : Int
  deriving DecidableEq, Repr

namespace Binary

/-- Bits of a full mantissa. -/
def precision : Nat := 53

/-- Exponent of the finest grid. -/
def minExponent : Int := -1074

/-- Exponent of the coarsest grid. -/
def maxExponent : Int := 971

/-- Zero, with the exponent of the smallest numbers. -/
def zero : Binary := ⟨0, minExponent⟩

/-- Is the number zero, whatever its exponent? -/
def isZero (x : Binary) : Bool := x.mantissa == 0

/-- The quotient rounded to the nearest natural, a half to the even one. -/
def divNearest (num den : Nat) : Nat :=
  let q := num / den
  let r := num % den
  if 2 * r < den then q
  else if den < 2 * r then q + 1
  else q + q % 2

/-- Numerator and denominator of `num / den · 2 ^ e`. -/
def scaleRatio (num den : Nat) (e : Int) : Nat × Nat :=
  (num * Nat.pow 2 e.toNat, den * Nat.pow 2 (-e).toNat)

/-- The power of two at or below a positive ratio. -/
def floorLog (num den : Nat) : Int :=
  let guess : Int := (num.log2 : Int) - (den.log2 : Int)
  let (n, d) := scaleRatio num den (-guess)
  if n < d then guess - 1 else guess

/-- The nearest finite value to `num / den`, unless that is beyond the largest one. -/
def ofRatio? (num den : Nat) : Option Binary :=
  if num = 0 then some zero
  else
    let grid := max minExponent (floorLog num den - (precision - 1 : Nat))
    let (n, d) := scaleRatio num den (-grid)
    let m := divNearest n d
    let x : Binary := if m = Nat.pow 2 precision then ⟨m / 2, grid + 1⟩ else ⟨m, grid⟩
    if maxExponent < x.exponent then none else some x

/-- The nearest number to a natural one, if it is in range. -/
def ofNat? (n : Nat) : Option Binary :=
  ofRatio? n 1

/-- The product, rounded once. -/
def mul? (x y : Binary) : Option Binary :=
  let (n, d) := scaleRatio (x.mantissa * y.mantissa) 1 (x.exponent + y.exponent)
  ofRatio? n d

/-- The quotient, rounded once. -/
def div? (x y : Binary) : Option Binary :=
  let (n, d) := scaleRatio x.mantissa y.mantissa (x.exponent - y.exponent)
  ofRatio? n d

/-- The largest power of ten that has a finite value. -/
def maxTen : Nat := 308

/-- The finite value nearest to a power of ten. -/
def ten? (e : Nat) : Option Binary :=
  ofNat? (Nat.pow 10 e)

/--
Divides by `10 ^ e`. A power beyond the largest finite one is divided out in steps of `10 ^ 308`,
and a zero stays zero whatever is left to divide by.
-/
def divTen? (x : Binary) (e : Nat) : Option Binary :=
  if maxTen < e then
    if x.isZero then some x
    else (ten? maxTen).bind fun p => (x.div? p).bind fun y => divTen? y (e - maxTen)
  else (ten? e).bind x.div?
termination_by e
decreasing_by simp_all [maxTen]; omega

/-- Multiplies by `10 ^ e`; only zero can be multiplied by a power beyond the finite ones. -/
def mulTen? (x : Binary) (e : Nat) : Option Binary :=
  if maxTen < e then
    if x.isZero then some x else none
  else (ten? e).bind x.mul?

/-- The value of `significand · 10 ^ e`, with the significand, the power and the result rounded. -/
def ofScientific? (significand : Nat) (e : Int) : Option Binary :=
  (ofNat? significand).bind fun x =>
    if 0 ≤ e then x.mulTen? e.toNat else x.divTen? (-e).toNat

end Binary

end TreeIR.Decimal

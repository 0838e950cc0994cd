import TreeIR.Decimal.Binary

/-!
# The fewest digits that read back

A positive value stands for every real that rounds to it. Those reals form an interval around the
value: half a grid step to each side, a quarter below if the value opens a coarser grid, ends
included when the mantissa is even. The decimal to print is the one on the coarsest decimal grid
that has a point in this interval, the nearest such point to the value, and the even one of two
that are as near. Being on the coarsest grid it has no final zero, and no decimal with fewer
digits reads back.

Everything is compared as integers, in units of a quarter of the value's grid step: the value is
`4 · mantissa` such units and the interval ends are a few units away.
-/

namespace TreeIR.Decimal

/-- The decimal `digits · 10 ^ exponent`. -/
structure Scientific where
  digits : Nat
  exponent : Int
  deriving DecidableEq, Repr

namespace Binary

/-- Distance down to the end of the rounding interval, in quarter steps. -/
def lowerGap (x : Binary) : Nat :=
  if x.mantissa = Nat.pow 2 (precision - 1) ∧ minExponent < x.exponent then 1 else 2

/-- Does the decimal `n · 10 ^ k` round to `x`? -/
def reads (x : Binary) (n : Nat) (k : Int) : Bool :=
  let quarter := x.exponent - 2
  -- both sides times `2 ^ -quarter · 10 ^ -k`, as far as those are whole
  let point := n * Nat.pow 10 k.toNat * Nat.pow 2 (-quarter).toNat
  let unit := Nat.pow 2 quarter.toNat * Nat.pow 10 (-k).toNat
  let low := (4 * x.mantissa - x.lowerGap) * unit
  let high := (4 * x.mantissa + 2) * unit
  if x.mantissa % 2 = 0 then low ≤ point && point ≤ high
  else low < point && point < high

/-- The value as a ratio of units of `10 ^ k`. -/
def gridRatio (x : Binary) (k : Int) : Nat × Nat :=
  let (n, d) := scaleRatio x.mantissa 1 x.exponent
  (n * Nat.pow 10 (-k).toNat, d * Nat.pow 10 k.toNat)

/-- The best point of the grid `10 ^ k` that reads back as `x`. -/
def onGrid? (x : Binary) (k : Int) : Option Scientific :=
  let (n, d) := x.gridRatio k
  let below := n / d
  let nearest := divNearest n d
  let other := if nearest = below then below + 1 else below
  if x.reads nearest k then some ⟨nearest, k⟩
  else if x.reads other k then some ⟨other, k⟩
  else none

/-- A decimal exponent above the value: `x < 10 ^ x.gridTop`. -/
def gridTop (x : Binary) : Int :=
  let top : Int := (x.mantissa.log2 : Int) + 1 + x.exponent
  if 0 ≤ top then top * 31 / 100 + 1 else -((-top) * 3 / 10)

/-- Grids that are tried: more than the digits that any value needs, with slack for `gridTop`. -/
def gridCount : Nat := 32

/-- The shortest decimal that reads back as a positive value. -/
def shortest (x : Binary) : Scientific :=
  ((List.range gridCount).findSome? fun i => x.onGrid? (x.gridTop - (i : Nat))).getD ⟨0, 0⟩

end Binary

end TreeIR.Decimal

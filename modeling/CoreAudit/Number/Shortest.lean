import CoreAudit.Number.Binary64

/-!
# The shortest decimal that reads back

Of all decimals that read back as a given number, the one with the fewest digits is shown, and of
those the nearest to the number. The decimals are searched on grids `10^g`, from coarse to fine
(`Neighbourhood.shortest`); on each grid only the two neighbours of the number can lie in the
interval that reads back (`Neighbourhood.onGrid`).
-/

namespace CoreAudit.Number

/-- A positive decimal: `digits · 10^exponent`. -/
structure Decimal where
  digits : Nat
  exponent : Int
  deriving Repr, DecidableEq

/-- The interval of the reals that read back as `significand · 2^exponent`, in quarters of the
unit `2^exponent`: two quarters on either side, but one below a power of two, where the numbers
below are twice as dense. The ends belong to it where the significand is even. -/
structure Neighbourhood where
  significand : Nat
  exponent : Int
  deriving Repr, DecidableEq

namespace Neighbourhood

/-- The lower end, in quarters. -/
def lower (x : Neighbourhood) : Nat :=
  4 * x.significand - (if x.significand = leastNormal ∧ -1074 < x.exponent then 1 else 2)

/-- The upper end, in quarters. -/
def upper (x : Neighbourhood) : Nat := 4 * x.significand + 2

/-- The whole factors `(a, b)` with which `k · 10^g` against `n` quarters of `2^exponent` is
`k · a` against `n · b`. -/
def factors (x : Neighbourhood) (g : Int) : Nat × Nat :=
  let q := x.exponent - 2
  (Nat.pow 10 g.toNat * Nat.pow 2 (-q).toNat, Nat.pow 2 q.toNat * Nat.pow 10 (-g).toNat)

/-- `k · 10^g` reads back as the number. -/
def reads (x : Neighbourhood) (g : Int) (k : Nat) : Bool :=
  let (a, b) := x.factors g
  if x.significand % 2 = 0 then decide (x.lower * b ≤ k * a) && decide (k * a ≤ x.upper * b)
  else decide (x.lower * b < k * a) && decide (k * a < x.upper * b)

/-- The grid point nearest to the number among its two neighbours that read back; an exact tie
goes to the even one. -/
def onGrid (x : Neighbourhood) (g : Int) : Option Decimal :=
  let (a, b) := x.factors g
  let k := 4 * x.significand * b / a
  let below := 4 * x.significand * b - k * a
  let above := (k + 1) * a - 4 * x.significand * b
  if x.reads g k && (!x.reads g (k + 1) || decide (below < above)
      || (decide (below = above) && decide (k % 2 = 0))) then some ⟨k, g⟩
  else if x.reads g (k + 1) then some ⟨k + 1, g⟩
  else none

/-- The exponent `e` with `10^e ≤ value < 10^(e+1)`, for a positive significand. -/
def decade (x : Neighbourhood) : Int :=
  if 0 ≤ x.exponent then
    ((Nat.toDigits 10 (x.significand * Nat.pow 2 x.exponent.toNat)).length : Int) - 1
  else
    let whole := x.significand / Nat.pow 2 (-x.exponent).toNat
    if 0 < whole then ((Nat.toDigits 10 whole).length : Int) - 1
    else
      -(((List.range 325).find? fun j =>
        decide (Nat.pow 2 (-x.exponent).toNat ≤ x.significand * Nat.pow 10 j)).getD 325 : Nat)

/-- The grids from the one with one digit to the one with seventeen. -/
def grids (x : Neighbourhood) : List Int :=
  (List.range 17).map fun (n : Nat) => x.decade - (n : Int)

/-- The decimal with the fewest digits that reads back. Seventeen digits always suffice; the
exact value stands in for the case that they did not. -/
def shortest (x : Neighbourhood) : Decimal :=
  (x.grids.findSome? x.onGrid).getD
    ⟨x.significand * (if 0 ≤ x.exponent then Nat.pow 2 x.exponent.toNat
      else Nat.pow 5 (-x.exponent).toNat), min 0 x.exponent⟩

end Neighbourhood

end CoreAudit.Number

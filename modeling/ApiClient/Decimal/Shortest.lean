import ApiClient.Decimal.Binary64

/-! The fewest digits that read back as a given number, and of those the nearest to it. -/

namespace ApiClient.Decimal

/-- The numbers `lower / den` to `upper / den` are rounded to `value / den`; the two ends as well
when `closed`. -/
structure Interval where
  lower : Nat
  value : Nat
  upper : Nat
  den : Nat
  closed : Bool

/-- Half a unit of the last place on either side; below a power of two the unit is smaller. -/
def Interval.around (x : Binary64) : Interval :=
  let m := x.significand
  let below := if m = Nat.pow 2 52 ∧ -1074 < x.exponent then 1 else 2
  let unit := Binary64.scaledBy 1 1 (2 - x.exponent)
  ⟨(4 * m - below) * unit.1, 4 * m * unit.1, (4 * m + 2) * unit.1, unit.2, m % 2 == 0⟩

/-- Whether `num / den` lies in the interval. -/
def Interval.has (i : Interval) (num den : Nat) : Bool :=
  let n := num * i.den
  if i.closed then decide (i.lower * den ≤ n) && decide (n ≤ i.upper * den)
  else decide (i.lower * den < n) && decide (n < i.upper * den)

/-- The point of the grid of `10 ^ k` in the interval that is nearest to its value; of two points
equally near, the even one. -/
def Interval.point? (i : Interval) (k : Int) : Option Nat :=
  let (p, q) := if k < 0 then (1, Nat.pow 10 k.natAbs) else (Nat.pow 10 k.natAbs, 1)
  let d := i.value * q / (i.den * p)
  match i.has (d * p) q, i.has ((d + 1) * p) q with
  | false, false => none
  | true, false => some d
  | false, true => some (d + 1)
  | true, true => some (Binary64.nearestNat (i.value * q) (i.den * p))

/-- The coarsest grid, from `10 ^ k` downwards, with a point in the interval. -/
def Interval.coarsest (i : Interval) : Nat → Int → Nat × Int
  | 0, k => (0, k)
  | steps + 1, k =>
    match i.point? k with
    | some d => (d, k)
    | none => i.coarsest steps (k - 1)

/-- Digits and exponent of ten of a number other than zero. The greatest number is below `10 ^ 309`
and the least is above `10 ^ -324`. -/
def shortest (x : Binary64) : Nat × Int := (Interval.around x).coarsest 640 309

end ApiClient.Decimal

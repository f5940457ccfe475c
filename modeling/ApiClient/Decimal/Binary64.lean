/-! Finite binary64 numbers, with exact rounding. -/

namespace ApiClient

/-- The number `significand * 2 ^ exponent`. In its normal form the significand has 53 bits, or the
exponent is the least one, -1074. -/
structure Binary64 where
  negative : Bool
  significand : Nat
  exponent : Int
  deriving DecidableEq

namespace Binary64

def zero (negative : Bool) : Binary64 := ⟨negative, 0, -1074⟩

def isZero (x : Binary64) : Bool := x.significand == 0

/-- Equality of values: zero has no sign. -/
def same (x y : Binary64) : Bool := x == y || (x.isZero && y.isZero)

theorem same_refl (x : Binary64) : x.same x = true := by simp [same]

theorem same_comm (x y : Binary64) : x.same y = y.same x := by
  simp [same, Bool.beq_comm, Bool.and_comm]

/-- The whole number nearest to `num / den`; a half goes to the even neighbour. -/
def nearestNat (num den : Nat) : Nat :=
  let d := num / den
  let r := num % den
  if 2 * r < den then d
  else if den < 2 * r then d + 1
  else if d % 2 == 0 then d else d + 1

/-- `num / den * 2 ^ -q` as a fraction. -/
def scaledBy (num den : Nat) (q : Int) : Nat × Nat :=
  if q < 0 then (num * Nat.pow 2 q.natAbs, den) else (num, den * Nat.pow 2 q.natAbs)

/-- The nearest number to `num / den`, none when it is out of range. -/
def ofRatio (negative : Bool) (num den : Nat) : Option Binary64 :=
  if num = 0 then some (zero negative)
  else
    let low : Int := (Nat.log2 num : Int) - Nat.log2 den - 53
    let (n, d) := scaledBy num den low
    let q := max (if Nat.pow 2 53 ≤ n / d then low + 1 else low) (-1074)
    let (n, d) := scaledBy num den q
    let m := nearestNat n d
    let (m, q) := if m = Nat.pow 2 53 then (Nat.pow 2 52, q + 1) else (m, q)
    if 971 < q then none else some ⟨negative, m, q⟩

/-- The magnitude as a fraction. -/
def ratio (x : Binary64) : Nat × Nat := scaledBy x.significand 1 (-x.exponent)

def times (x y : Binary64) : Option Binary64 :=
  ofRatio (x.negative != y.negative) (x.ratio.1 * y.ratio.1) (x.ratio.2 * y.ratio.2)

def dividedBy (x y : Binary64) : Option Binary64 :=
  ofRatio (x.negative != y.negative) (x.ratio.1 * y.ratio.2) (x.ratio.2 * y.ratio.1)

/-- The nearest number to `digits * 10 ^ exponent`. As `8 < 10`, three bits for each place of the
exponent tell when the answer lies far outside the range, and no power is computed then. -/
def ofDecimal (negative : Bool) (digits : Nat) (exponent : Int) : Option Binary64 :=
  let bits : Int := Nat.log2 digits + 3 * exponent
  if digits = 0 then some (zero negative)
  else if exponent < 0 then
    if bits < -1200 then some (zero negative)
    else ofRatio negative digits (Nat.pow 10 exponent.natAbs)
  else if 1200 < bits then none
  else ofRatio negative (digits * Nat.pow 10 exponent.natAbs) 1

end Binary64

end ApiClient

import ApiClient.Decimal.Binary64
import ApiClient.Text.Digit

/-! Number literals. An integer keeps its value while it fits 64 bits; every other number is read as
a significand of at most 64 bits and a power of ten, joined by one rounded multiplication or
division. -/

namespace ApiClient.Json

/-- A number as written: the digits before and after the point, and the exponent. -/
structure Literal where
  negative : Bool
  whole : List Nat
  fraction : Option (List Nat)
  exponent : Option Int

inductive Number where
  | unsigned (n : Nat)
  | signed (n : Int)
  | float (x : Binary64)

/-- The digits at the head of a text. -/
def digits (cs : List Char) : List Nat × List Char :=
  ((cs.takeWhile Char.isDigit).filterMap (Text.digit? 10), cs.dropWhile Char.isDigit)

namespace Literal

/-- No digits at all, or a zero before other digits, are no whole number. -/
def wellFormed (whole : List Nat) : Bool :=
  match whole with
  | [] => false
  | [_] => true
  | d :: _ => d != 0

def readFraction : List Char → Option (Option (List Nat) × List Char)
  | '.' :: rest =>
    match digits rest with
    | ([], _) => none
    | (ds, rest) => some (some ds, rest)
  | rest => some (none, rest)

def value (ds : List Nat) : Nat := ds.foldl (fun n d => 10 * n + d) 0

def readSignedExponent (negative : Bool) (cs : List Char) : Option (Option Int × List Char) :=
  match digits cs with
  | ([], _) => none
  | (ds, rest) => some (some (if negative then -(value ds : Int) else value ds), rest)

def readExponent : List Char → Option (Option Int × List Char)
  | c :: rest =>
    if c = 'e' ∨ c = 'E' then
      match rest with
      | '+' :: rest => readSignedExponent false rest
      | '-' :: rest => readSignedExponent true rest
      | rest => readSignedExponent false rest
    else some (none, c :: rest)
  | [] => some (none, [])

def read (cs : List Char) : Option (Literal × List Char) := do
  let (negative, cs) := match cs with
    | '-' :: rest => (true, rest)
    | _ => (false, cs)
  let (whole, cs) := digits cs
  guard (wellFormed whole)
  let (fraction, cs) ← readFraction cs
  let (exponent, cs) ← readExponent cs
  return (⟨negative, whole, fraction, exponent⟩, cs)

/-- Takes digits into the significand as long as it fits 64 bits; the rest is left. -/
def absorb (n : Nat) : List Nat → Nat × List Nat
  | [] => (n, [])
  | d :: ds => if 10 * n + d < Nat.pow 2 64 then absorb (10 * n + d) ds else (n, d :: ds)

/-- A power of ten above the range is reached by steps of `10 ^ 308`, each of them rounded. Three
divisions bring every significand to zero. -/
def scale : Nat → Binary64 → Int → Option Binary64
  | steps, x, e =>
    if e.natAbs ≤ 308 then do
      let power ← Binary64.ofRatio false (Nat.pow 10 e.natAbs) 1
      if e < 0 then x.dividedBy power else x.times power
    else if x.isZero then some x
    else if 0 < e then none
    else match steps with
      | 0 => some (Binary64.zero x.negative)
      | steps + 1 => do
        let power ← Binary64.ofRatio false (Nat.pow 10 308) 1
        scale steps (← x.dividedBy power) (e + 308)

/-- Exponents beyond 31 bits are not added up: they stand for an infinite power. -/
def toFloat (l : Literal) : Option Binary64 :=
  let (n, left) := absorb 0 l.whole
  let decimals := l.fraction.getD []
  let (n, ignored) := absorb n decimals
  let places : Int := left.length - (decimals.length - ignored.length : Nat)
  let e := l.exponent.getD 0
  if Nat.pow 2 31 ≤ e.natAbs then
    if n = 0 ∨ e < 0 then some (Binary64.zero l.negative) else none
  else do
    let x ← Binary64.ofRatio l.negative n 1
    scale 3 x (places + e)

/-- Zero with a sign, and an integer that does not fit, are floating-point numbers. -/
def toNumber (l : Literal) : Option Number :=
  let n := value l.whole
  match l.fraction, l.exponent with
  | none, none =>
    if l.negative then
      if 0 < n ∧ n ≤ Nat.pow 2 63 then some (.signed (-n)) else l.toFloat.map .float
    else if n < Nat.pow 2 64 then some (.unsigned n) else l.toFloat.map .float
  | _, _ => l.toFloat.map .float

end Literal

end ApiClient.Json

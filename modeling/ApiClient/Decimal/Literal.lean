import ApiClient.Decimal.Binary64

/-! Decimal text as a binary64 number. -/

namespace ApiClient.Decimal

/-- A number `digits * 10 ^ exponent` with a sign. -/
structure Literal where
  negative : Bool
  digits : Nat
  exponent : Int

def value (cs : List Char) : Nat := cs.foldl (fun n c => 10 * n + (c.toNat - 48)) 0

def sign (cs : List Char) : Bool × List Char :=
  match cs with
  | '-' :: rest => (true, rest)
  | '+' :: rest => (false, rest)
  | _ => (false, cs)

/-- The exponent, if there is one, must have digits, and ends the text. -/
def exponent? : List Char → Option Int
  | [] => some 0
  | c :: rest =>
    let (negative, ds) := sign rest
    if (c = 'e' ∨ c = 'E') ∧ ds ≠ [] ∧ ds.all Char.isDigit then
      some (if negative then -(value ds : Int) else value ds)
    else none

/-- There is a digit before or after the point, which may be missing. -/
def literal? (cs : List Char) : Option Literal := do
  let (negative, cs) := sign cs
  let whole := cs.takeWhile Char.isDigit
  let rest := cs.dropWhile Char.isDigit
  let (fraction, rest) := match rest with
    | '.' :: rest => (rest.takeWhile Char.isDigit, rest.dropWhile Char.isDigit)
    | _ => ([], rest)
  guard (!(whole.isEmpty && fraction.isEmpty))
  let e ← exponent? rest
  return ⟨negative, value (whole ++ fraction), e - fraction.length⟩

/-- The nearest number, none when it is out of range. -/
def Literal.toBinary64 (l : Literal) : Option Binary64 :=
  Binary64.ofDecimal l.negative l.digits l.exponent

end ApiClient.Decimal

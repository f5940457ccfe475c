/-! Digits to a base of at most sixteen. -/

namespace ApiClient.Text

/-- The value of a digit; letters of either case follow the decimal digits. -/
def digit? (base : Nat) (c : Char) : Option Nat :=
  let n :=
    if c.isDigit then c.toNat - 48
    else if 'a' ≤ c ∧ c ≤ 'f' then c.toNat - 87
    else if 'A' ≤ c ∧ c ≤ 'F' then c.toNat - 55
    else base
  if n < base then some n else none

theorem digit?_lt {base : Nat} {c : Char} {n : Nat} (h : digit? base c = some n) : n < base := by
  unfold digit? at h
  simp only [Option.ite_none_right_eq_some, Option.some.injEq] at h
  exact h.2 ▸ h.1

/-- A number of one or more digits. -/
def natural? (base : Nat) (cs : List Char) : Option Nat := do
  guard (!cs.isEmpty)
  return (← cs.mapM (digit? base)).foldl (fun n d => base * n + d) 0

/-- The character with a code of `digits` hexadecimal digits, and what follows it. Surrogates are no
characters. -/
def coded? (digits : Nat) (cs : List Char) : Option (Char × List Char) := do
  guard (digits ≤ cs.length)
  let n ← natural? 16 (cs.take digits)
  guard (n.isValidChar)
  return (Char.ofNat n, cs.drop digits)

end ApiClient.Text

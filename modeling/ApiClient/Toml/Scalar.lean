import ApiClient.Decimal.Literal
import ApiClient.Text.Digit
import ApiClient.Tree

/-! Numbers, booleans, dates and times. -/

namespace ApiClient.Toml.Scalar

/-- Digits with single underscores between them, without the underscores. -/
def plainDigits? (base : Nat) : List Char → Option (List Char)
  | [] => none
  | [c] => (Text.digit? base c).map fun _ => [c]
  | c :: '_' :: rest => do
    let _ ← Text.digit? base c
    return c :: (← plainDigits? base rest)
  | c :: rest => do
    let _ ← Text.digit? base c
    return c :: (← plainDigits? base rest)

/-- Decimal digits without a zero in front of others. -/
def whole? (cs : List Char) : Option (List Char) := do
  let ds ← plainDigits? 10 cs
  match ds with
  | '0' :: _ :: _ => none
  | _ => return ds

/-- An integer is read as it is, whatever its size. -/
def integer? (cs : List Char) : Option Int :=
  match cs with
  | '0' :: 'x' :: ds => (plainDigits? 16 ds).bind fun ds => (Text.natural? 16 ds).map Int.ofNat
  | '0' :: 'o' :: ds => (plainDigits? 8 ds).bind fun ds => (Text.natural? 8 ds).map Int.ofNat
  | '0' :: 'b' :: ds => (plainDigits? 2 ds).bind fun ds => (Text.natural? 2 ds).map Int.ofNat
  | _ => do
    let (negative, ds) := Decimal.sign cs
    let n := Decimal.value (← whole? ds)
    return if negative then -(n : Int) else n

/-- Integers of more than 128 bits cannot be held. -/
def fits (n : Int) : Bool :=
  if n < 0 then decide (n.natAbs ≤ Nat.pow 2 127) else decide (n.natAbs < Nat.pow 2 128)

def isExponentMark (c : Char) : Bool := c == 'e' || c == 'E'

/-- A float without its underscores: a whole number with decimals, an exponent, or both. -/
def plainFloat? (cs : List Char) : Option (List Char) := do
  let (negative, cs) := Decimal.sign cs
  let mantissa := cs.takeWhile (!isExponentMark ·)
  let exponent := cs.drop mantissa.length
  let whole := mantissa.takeWhile (· != '.')
  let decimals := mantissa.drop whole.length
  guard (!(decimals.isEmpty && exponent.isEmpty))
  let start := (if negative then ['-'] else []) ++ (← whole? whole)
  let middle ← match decimals with
    | [] => some []
    | _ :: ds => (plainDigits? 10 ds).map ('.' :: ·)
  let last ← match exponent with
    | [] => some []
    | e :: ds =>
      let (below, ds) := Decimal.sign ds
      (plainDigits? 10 ds).map fun ds => e :: (if below then ['-'] else []) ++ ds
  return start ++ middle ++ last

/-- A number out of range cannot be held. -/
def float? (cs : List Char) : Option Binary64 := do
  (← Decimal.literal? (← plainFloat? cs)).toBinary64

def isSpecial (cs : List Char) : Bool :=
  ["inf", "nan"].any fun s => (Decimal.sign cs).2 == s.toList

/-! ### Dates and times -/

/-- A number of exactly `width` digits within bounds, and the rest. -/
def field? (width low high : Nat) (cs : List Char) : Option (Nat × List Char) := do
  guard (width ≤ cs.length)
  let n ← Text.natural? 10 (cs.take width)
  guard (low ≤ n ∧ n ≤ high)
  return (n, cs.drop width)

def past? (c : Char) : List Char → Option (List Char)
  | x :: rest => if x = c then some rest else none
  | [] => none

def daysOf (year month : Nat) : Nat :=
  if month = 2 then
    if year % 4 = 0 ∧ (year % 100 ≠ 0 ∨ year % 400 = 0) then 29 else 28
  else if [4, 6, 9, 11].contains month then 30
  else 31

def date? (cs : List Char) : Option (List Char) := do
  let (year, cs) ← field? 4 0 9999 cs
  let (month, cs) ← field? 2 1 12 (← past? '-' cs)
  let (_, cs) ← field? 2 1 (daysOf year month) (← past? '-' cs)
  return cs

/-- Decimals of a second, if there is a point. -/
def decimals? : List Char → Option (List Char)
  | '.' :: rest =>
    if rest.head?.any Char.isDigit then some (rest.dropWhile Char.isDigit) else none
  | rest => some rest

/-- Hours and minutes; seconds may be missing. -/
def time? (cs : List Char) : Option (List Char) := do
  let (_, cs) ← field? 2 0 23 cs
  let (_, cs) ← field? 2 0 59 (← past? ':' cs)
  match cs with
  | ':' :: cs => do
    let (_, cs) ← field? 2 0 60 cs
    decimals? cs
  | _ => return cs

/-- The offset from universal time, if there is one. -/
def offset? : List Char → Option (List Char)
  | c :: rest =>
    if c = 'Z' ∨ c = 'z' then some rest
    else if c = '+' ∨ c = '-' then do
      let (_, rest) ← field? 2 0 23 rest
      let (_, rest) ← field? 2 0 59 (← past? ':' rest)
      return rest
    else some (c :: rest)
  | [] => some []

def isDateMark (c : Char) : Bool := c == 'T' || c == 't' || c == ' '

/-- Whether a text is a date, a time, or both, and nothing more. -/
def isMoment (cs : List Char) : Bool :=
  match date? cs with
  | some [] => true
  | some (c :: rest) => isDateMark c && (time? rest).bind offset? == some []
  | none => time? cs == some []

/-! ### Reading -/

def isScalarChar (c : Char) : Bool :=
  c.isAlphanum || c == '_' || c == '-' || c == '+' || c == '.' || c == ':'

/-- The characters of a scalar. A space belongs to it between a date and a time. -/
def take (cs : List Char) : List Char × List Char :=
  let word := cs.takeWhile isScalarChar
  let rest := cs.drop word.length
  match date? word, rest with
  | some [], ' ' :: c :: more =>
    if c.isDigit then
      let time := (c :: more).takeWhile isScalarChar
      (word ++ ' ' :: time, (c :: more).drop time.length)
    else (word, rest)
  | _, _ => (word, rest)

/-- The value of a scalar. A date or a time is taken for none of the values that are expected
anywhere. -/
def tree? (cs : List Char) : Option Tree :=
  if cs = "true".toList then some (.bool true)
  else if cs = "false".toList then some (.bool false)
  else if isSpecial cs then some .nonFinite
  else if isMoment cs then some .null
  else match integer? cs with
    | some n => if fits n then some (.ofInt n) else none
    | none => (float? cs).map .float

end ApiClient.Toml.Scalar

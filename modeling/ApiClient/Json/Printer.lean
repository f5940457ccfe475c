import ApiClient.Decimal.Shortest
import ApiClient.Json.Value

/-! JSON text: compact, or with one entry a line. -/

namespace ApiClient.Json

def hexChar (n : Nat) : Char := Char.ofNat (if n < 10 then 48 + n else 87 + n)

/-- Quotes, backslashes and control characters are escaped, and nothing else. -/
def escaped (c : Char) : List Char :=
  if c = '"' then ['\\', '"']
  else if c = '\\' then ['\\', '\\']
  else if c = '\n' then ['\\', 'n']
  else if c = '\r' then ['\\', 'r']
  else if c = '\t' then ['\\', 't']
  else if c.toNat = 8 then ['\\', 'b']
  else if c.toNat = 12 then ['\\', 'f']
  else if c.toNat < 32 then
    ['\\', 'u', '0', '0', hexChar (c.toNat / 16), hexChar (c.toNat % 16)]
  else [c]

def quoted (s : String) : String := String.ofList ('"' :: s.toList.flatMap escaped ++ ['"'])

/-- Digits are written out for decimal exponents from -5 to 15, and with a power of ten otherwise.
A whole number keeps one decimal. -/
def floatText (x : Binary64) : String :=
  let sign := if x.negative then "-" else ""
  if x.isZero then sign ++ "0.0"
  else
    let (d, k) := Decimal.shortest x
    let ds := toString d
    let e := k + (ds.length : Int) - 1
    let zeros (n : Nat) := String.ofList (List.replicate n '0')
    if -5 ≤ e ∧ e ≤ 15 then
      if 0 ≤ k then sign ++ ds ++ zeros k.natAbs ++ ".0"
      else if 0 ≤ e then
        sign ++ String.ofList (ds.toList.take (e.natAbs + 1)) ++ "." ++
          String.ofList (ds.toList.drop (e.natAbs + 1))
      else sign ++ "0." ++ zeros (e.natAbs - 1) ++ ds
    else
      let mantissa := match ds.toList with
        | [] => ""
        | [c] => String.ofList [c]
        | c :: cs => String.ofList (c :: '.' :: cs)
      sign ++ mantissa ++ "e" ++ (if e < 0 then "-" else "+") ++ toString e.natAbs

mutual

def text : Json → String
  | .null => "null"
  | .bool true => "true"
  | .bool false => "false"
  | .int n => toString n
  | .float x => floatText x
  | .str s => quoted s
  | .arr items => "[" ++ textItems items ++ "]"
  | .obj fields => "\x7b" ++ textFields fields ++ "\x7d"

def textItems : List Json → String
  | [] => ""
  | [v] => v.text
  | v :: vs => v.text ++ "," ++ textItems vs

def textFields : List (String × Json) → String
  | [] => ""
  | [(k, v)] => quoted k ++ ":" ++ v.text
  | (k, v) :: fs => quoted k ++ ":" ++ v.text ++ "," ++ textFields fs

end

def indent (level : Nat) : String := String.ofList ('\n' :: List.replicate (2 * level) ' ')

mutual

/-- One entry a line, two spaces further in for each level. -/
def prettyAt (level : Nat) : Json → String
  | .arr [] => "[]"
  | .arr (v :: vs) => "[" ++ prettyItems (level + 1) (v :: vs) ++ indent level ++ "]"
  | .obj [] => "\x7b\x7d"
  | .obj (f :: fs) => "\x7b" ++ prettyFields (level + 1) (f :: fs) ++ indent level ++ "\x7d"
  | v => v.text

def prettyItems (level : Nat) : List Json → String
  | [] => ""
  | [v] => indent level ++ prettyAt level v
  | v :: vs => indent level ++ prettyAt level v ++ "," ++ prettyItems level vs

def prettyFields (level : Nat) : List (String × Json) → String
  | [] => ""
  | [(k, v)] => indent level ++ quoted k ++ ": " ++ prettyAt level v
  | (k, v) :: fs =>
    indent level ++ quoted k ++ ": " ++ prettyAt level v ++ "," ++ prettyFields level fs

end

def pretty (v : Json) : String := v.prettyAt 0

end ApiClient.Json

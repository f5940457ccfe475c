import ApiClient.Decimal.Literal
import ApiClient.Text.Digit
import ApiClient.Tree

/-! What plain scalars stand for, and what tags make of scalars. -/

namespace ApiClient.Yaml.Core

def isNull (s : String) : Bool := ["null", "Null", "NULL", "~"].contains s

def bool? (s : String) : Option Bool :=
  if ["true", "True", "TRUE"].contains s then some true
  else if ["false", "False", "FALSE"].contains s then some false
  else none

def unsigned? : List Char → Option Nat
  | '0' :: 'x' :: cs => Text.natural? 16 cs
  | '0' :: 'o' :: cs => Text.natural? 8 cs
  | '0' :: 'b' :: cs => Text.natural? 2 cs
  | cs => Text.natural? 10 cs

/-- Digits that begin with a zero are a text and no number. -/
def isPadded (cs : List Char) : Bool :=
  match (Decimal.sign cs).2 with
  | '0' :: c :: rest => (c :: rest).all Char.isDigit
  | _ => false

/-- The sign and the digits of an integer. -/
def integer? (cs : List Char) : Option (Bool × Nat) :=
  if isPadded cs then none
  else (unsigned? (Decimal.sign cs).2).map ((Decimal.sign cs).1, ·)

/-- Integers have 64 bits. Up to 128 bits a number is an integer that does not fit, which is an error;
beyond that it is no integer. -/
def integerTree? (cs : List Char) : Option (Option Tree) :=
  match integer? cs with
  | none => none
  | some (false, n) =>
    if n < Nat.pow 2 64 then some (some (.unsigned n))
    else if n < Nat.pow 2 128 then some none
    else none
  | some (true, n) =>
    if n ≤ Nat.pow 2 63 then some (some (.signed (-n)))
    else if n ≤ Nat.pow 2 127 then some none
    else none

/-- A number beyond the range is none; the infinities have names. -/
def floatTree? (s : String) : Option Tree :=
  if [".inf", ".Inf", ".INF", "+.inf", "+.Inf", "+.INF", "-.inf", "-.Inf", "-.INF", ".nan", ".NaN",
      ".NAN"].contains s then some .nonFinite
  else ((Decimal.literal? s.toList).bind Decimal.Literal.toBinary64).map .float

/-- What a plain scalar stands for. -/
def plainTree? (s : String) : Option Tree :=
  if s = "" ∨ isNull s then some .null
  else match bool? s with
    | some b => some (.bool b)
    | none =>
      match integerTree? s.toList with
      | some t => t
      | none =>
        if isPadded s.toList then some (.str s) else some ((floatTree? s).getD (.str s))

/-- Whether the octets of a tag, one character each, are UTF-8. -/
def isText (tag : String) : Bool :=
  (String.fromUTF8? ⟨(tag.toList.map fun c => UInt8.ofNat c.toNat).toArray⟩).isSome

def hasMark (tag : String) : Bool := tag.toList.head? == some '!'

def isLocal (tag : Option String) : Bool := tag.any fun t => hasMark t && isText t

/-- A scalar with a tag is what the tag says. Local tags have no meaning here, and those that are no
text do not count. -/
def scalarTree? (tag : Option String) (plain : Bool) (s : String) : Option Tree :=
  match tag with
  | none => if plain then plainTree? s else some (.str s)
  | some "tag:yaml.org,2002:bool" => (bool? s).map .bool
  | some "tag:yaml.org,2002:int" => (integerTree? s.toList).join
  | some "tag:yaml.org,2002:float" => floatTree? s
  | some "tag:yaml.org,2002:null" => if isNull s then some .null else none
  | some t =>
    if isLocal (some t) then none
    else if hasMark t && plain then plainTree? s
    else some (.str s)

end ApiClient.Yaml.Core

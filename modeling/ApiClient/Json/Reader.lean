import ApiClient.Tree
import ApiClient.Json.Number
import ApiClient.Json.Value
import ApiClient.Text.Digit

/-! Reading JSON text. What is read only to be skipped is checked less: its numbers may have any
size, its escapes may name half a surrogate pair, and it may nest to any depth. -/

namespace ApiClient.Json.Reader

def skipBlanks (cs : List Char) : List Char :=
  cs.dropWhile fun c => c == ' ' || c == '\t' || c == '\n' || c == '\r'

def hex4? : List Char → Option (Nat × List Char)
  | a :: b :: c :: d :: rest => (Text.natural? 16 [a, b, c, d]).map (·, rest)
  | _ => none

/-- The character of a `\u` escape; one above the 16-bit range is written as two escapes, its
surrogates. -/
def unicode? (checked : Bool) (cs : List Char) : Option (Char × List Char) := do
  let (high, rest) ← hex4? cs
  if !checked then return (Char.ofNat high, rest)
  else if 0xDC00 ≤ high ∧ high ≤ 0xDFFF then none
  else if high < 0xD800 ∨ 0xDBFF < high then return (Char.ofNat high, rest)
  else match rest with
    | '\\' :: 'u' :: rest => do
      let (low, rest) ← hex4? rest
      guard (0xDC00 ≤ low ∧ low ≤ 0xDFFF)
      return (Char.ofNat (0x10000 + (high - 0xD800) * 0x400 + (low - 0xDC00)), rest)
    | _ => none

/-- The character of an escape, from behind its backslash. -/
def escape? (checked : Bool) : List Char → Option (Char × List Char)
  | 'u' :: rest => unicode? checked rest
  | c :: rest =>
    match c with
    | '"' => some ('"', rest)
    | '\\' => some ('\\', rest)
    | '/' => some ('/', rest)
    | 'b' => some (Char.ofNat 8, rest)
    | 'f' => some (Char.ofNat 12, rest)
    | 'n' => some ('\n', rest)
    | 'r' => some ('\r', rest)
    | 't' => some ('\t', rest)
    | _ => none
  | [] => none

/-- The rest of a string literal; `seen` holds its characters so far, last one first. -/
def string? (checked : Bool) : Nat → List Char → List Char → Option (String × List Char)
  | 0, _, _ => none
  | _ + 1, _, [] => none
  | steps + 1, seen, c :: rest =>
    if c = '"' then some (String.ofList seen.reverse, rest)
    else if c = '\\' then do
      let (e, rest) ← escape? checked rest
      string? checked steps (e :: seen) rest
    else if c.toNat < 32 then none
    else string? checked steps (c :: seen) rest

def number? (checked : Bool) (cs : List Char) : Option (Tree × List Char) := do
  let (literal, rest) ← Literal.read cs
  if checked then
    match ← literal.toNumber with
    | .unsigned n => return (.unsigned n, rest)
    | .signed n => return (.signed n, rest)
    | .float x => return (.float x, rest)
  else return (.null, rest)

/-- A key and the colon behind it. -/
def key? (checked : Bool) (steps : Nat) (cs : List Char) : Option (String × List Char) :=
  match skipBlanks cs with
  | '"' :: rest => do
    let (k, rest) ← string? checked steps [] rest
    match skipBlanks rest with
    | ':' :: rest => return (k, rest)
    | _ => none
  | _ => none

/-- Which parts of a value are checked: the value itself, and the values of its keys. -/
structure Care where
  itself : Bool
  valueOf : String → Bool

def Care.all : Care := ⟨true, fun _ => true⟩

def Care.none : Care := ⟨false, fun _ => false⟩

def Care.below (checked : Bool) : Care := if checked then .all else .none

mutual

/-- A value, with at most `depth` levels of containers if it is checked. Every call uses up a step,
and takes at least a character for every two calls. -/
def value? (care : Care) : Nat → Nat → List Char → Option (Tree × List Char)
  | 0, _, _ => none
  | steps + 1, depth, cs =>
    match skipBlanks cs with
    | 'n' :: 'u' :: 'l' :: 'l' :: rest => some (.null, rest)
    | 't' :: 'r' :: 'u' :: 'e' :: rest => some (.bool true, rest)
    | 'f' :: 'a' :: 'l' :: 's' :: 'e' :: rest => some (.bool false, rest)
    | '"' :: rest => do
      let (s, rest) ← string? care.itself steps [] rest
      return (.str s, rest)
    | '[' :: rest =>
      if care.itself && depth == 0 then none
      else match skipBlanks rest with
        | ']' :: rest => some (.seq [], rest)
        | rest => items? care steps (depth - 1) [] rest
    | '{' :: rest =>
      if care.itself && depth == 0 then none
      else match skipBlanks rest with
        | '}' :: rest => some (.map [], rest)
        | rest => members? care steps (depth - 1) [] rest
    | rest => number? care.itself rest

def items? (care : Care) : Nat → Nat → List Tree → List Char → Option (Tree × List Char)
  | 0, _, _, _ => none
  | steps + 1, depth, seen, cs => do
    let (v, rest) ← value? (.below care.itself) steps depth cs
    match skipBlanks rest with
    | ',' :: rest => items? care steps depth (v :: seen) rest
    | ']' :: rest => return (.seq (v :: seen).reverse, rest)
    | _ => none

def members? (care : Care) : Nat → Nat → List (Tree × Tree) → List Char →
    Option (Tree × List Char)
  | 0, _, _, _ => none
  | steps + 1, depth, seen, cs => do
    let (k, rest) ← key? care.itself steps cs
    let (v, rest) ← value? (.below (care.valueOf k)) steps depth rest
    match skipBlanks rest with
    | ',' :: rest => members? care steps depth ((.str k, v) :: seen) rest
    | '}' :: rest => return (.map ((.str k, v) :: seen).reverse, rest)
    | _ => none

end

/-- A whole text holds one value. -/
def tree? (care : Care) (text : String) : Option Tree := do
  let cs := text.toList
  let (t, rest) ← value? care (2 * cs.length + 2) 127 cs
  match skipBlanks rest with
  | [] => return t
  | _ => none

end Reader

def read? (text : String) : Option Json := Reader.tree? .all text >>= ofTree?

/-- The value that a text holds, with what is reported: the message, for a text that is no JSON. Of what is
no text, nothing is reported. -/
def probe (message : String) : Json → Option Json × List String
  | .str text =>
    match read? text with
    | some v => (some v, [])
    | none => (none, [message])
  | _ => (none, [])

theorem probe_eq_some_iff {message : String} {v w : Json} :
    (probe message v).1 = some w ↔ ∃ text, v = .str text ∧ read? text = some w := by
  cases v with
  | str text => cases h : read? text <;> simp [probe, h]
  | _ => simp [probe]

theorem probe_reports_iff {message : String} {v : Json} :
    (probe message v).2 = [message] ↔ ∃ text, v = .str text ∧ read? text = none := by
  cases v with
  | str text => cases h : read? text <;> simp [probe, h]
  | _ => simp [probe]

end ApiClient.Json

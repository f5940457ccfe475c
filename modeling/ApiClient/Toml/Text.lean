import ApiClient.Text.Digit

/-! The characters of TOML: blanks and comments, strings and keys. -/

namespace ApiClient.Toml

def skipBlanks (cs : List Char) : List Char := cs.dropWhile fun c => c == ' ' || c == '\t'

/-- What may stand in a comment: no control characters but the tab. -/
def isText (c : Char) : Bool := c == '\t' || decide (32 ≤ c.toNat) && c.toNat != 127

/-- Past a line break. -/
def break? : List Char → Option (List Char)
  | '\n' :: rest => some rest
  | '\r' :: '\n' :: rest => some rest
  | _ => none

/-- Past blanks and a comment, to the end of the line or of the text. -/
def skipComment (cs : List Char) : List Char :=
  match skipBlanks cs with
  | '#' :: rest => rest.dropWhile isText
  | rest => rest

/-- Past the end of a line. -/
def lineEnd? (cs : List Char) : Option (List Char) :=
  match skipComment cs with
  | [] => some []
  | rest => break? rest

/-- Past blanks, comments and line breaks. -/
def skipLines : Nat → List Char → List Char
  | 0, cs => cs
  | steps + 1, cs =>
    let rest := skipComment cs
    match break? rest with
    | some rest => skipLines steps rest
    | none => rest

/-! ### Strings -/

def escape? : List Char → Option (Char × List Char)
  | 'x' :: rest => Text.coded? 2 rest
  | 'u' :: rest => Text.coded? 4 rest
  | 'U' :: rest => Text.coded? 8 rest
  | c :: rest =>
    let named : List (Char × Nat) := [('b', 8), ('t', 9), ('n', 10), ('f', 12), ('r', 13), ('e', 27),
      ('"', 34), ('\\', 92)]
    (named.lookup c).map fun n => (Char.ofNat n, rest)
  | [] => none

/-- The rest of a string on one line; `seen` holds its characters so far, last one first. Only in
double quotes are there escapes. -/
def oneLine? (double : Bool) : Nat → List Char → List Char → Option (String × List Char)
  | 0, _, _ => none
  | _, _, [] => none
  | steps + 1, seen, c :: rest =>
    if c == (if double then '"' else '\'') then some (String.ofList seen.reverse, rest)
    else if double && c == '\\' then do
      let (e, rest) ← escape? rest
      oneLine? double steps (e :: seen) rest
    else if isText c then oneLine? double steps (c :: seen) rest
    else none

/-- Past blanks and line breaks. -/
def skipSpace : Nat → List Char → List Char
  | 0, cs => cs
  | steps + 1, cs =>
    let rest := skipBlanks cs
    match break? rest with
    | some rest => skipSpace steps rest
    | none => rest

/-- Past a line break that is escaped, with the blanks before it and all blanks and breaks after. -/
def escapedBreak? (cs : List Char) : Option (List Char) :=
  (break? (skipBlanks cs)).map (skipSpace cs.length)

/-- The rest of a string of several lines. Up to two quotes may stand before the closing three. -/
def manyLines? (double : Bool) : Nat → List Char → List Char → Option (String × List Char)
  | 0, _, _ => none
  | _, _, [] => none
  | steps + 1, seen, c :: rest =>
    let quote := if double then '"' else '\''
    if c == quote then
      let n := ((c :: rest).takeWhile (· == quote)).length
      let after := (c :: rest).drop n
      if n < 3 then manyLines? double steps (List.replicate n quote ++ seen) after
      else if n ≤ 5 then
        some (String.ofList (List.replicate (n - 3) quote ++ seen).reverse, after)
      else none
    else if double && c == '\\' then
      match escapedBreak? rest with
      | some rest => manyLines? double steps seen rest
      | none => do
        let (e, rest) ← escape? rest
        manyLines? double steps (e :: seen) rest
    else if c == '\n' then manyLines? double steps (c :: seen) rest
    else if c == '\r' then
      match rest with
      | '\n' :: rest => manyLines? double steps ('\n' :: c :: seen) rest
      | _ => none
    else if isText c then manyLines? double steps (c :: seen) rest
    else none

/-- A string from its opening quote. A line break directly behind three quotes is no part of it. -/
def string? (bound : Nat) : List Char → Option (String × List Char)
  | '"' :: '"' :: '"' :: rest => manyLines? true bound [] ((break? rest).getD rest)
  | '\'' :: '\'' :: '\'' :: rest => manyLines? false bound [] ((break? rest).getD rest)
  | '"' :: rest => oneLine? true bound [] rest
  | '\'' :: rest => oneLine? false bound [] rest
  | _ => none

/-! ### Keys -/

def isKeyChar (c : Char) : Bool := c.isAlphanum || c == '-' || c == '_'

def keyPart? (bound : Nat) : List Char → Option (String × List Char)
  | '"' :: rest => oneLine? true bound [] rest
  | '\'' :: rest => oneLine? false bound [] rest
  | cs =>
    let word := cs.takeWhile isKeyChar
    if word.isEmpty then none else some (String.ofList word, cs.drop word.length)

/-- A key of one or more parts with points between them, at most `parts` of them. -/
def keyParts? (bound : Nat) : (parts : Nat) → List Char → Option (List String × List Char)
  | 0, _ => none
  | parts + 1, cs => do
    let (part, rest) ← keyPart? bound (skipBlanks cs)
    match skipBlanks rest with
    | '.' :: rest => do
      let (more, rest) ← keyParts? bound parts rest
      return (part :: more, rest)
    | rest => return ([part], rest)

def key? (bound : Nat) (cs : List Char) : Option (List String × List Char) := keyParts? bound 80 cs

end ApiClient.Toml

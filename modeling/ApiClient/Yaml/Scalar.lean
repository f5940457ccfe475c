import ApiClient.Text.Digit
import ApiClient.Yaml.Cursor

/-! The text of scalars: plain, in quotes, or in a block of lines. Every reader is given a number of
steps that the length of the text bounds. -/

namespace ApiClient.Yaml.Scalar

/-- What stands between two parts of a scalar: blanks on one line, or line breaks. The first break is
missing when it was escaped. -/
inductive Gap where
  | blanks (cs : List Char)
  | breaks (first : Option Char) (others : List Char)

/-- One break is read as a space; the breaks after it stay. -/
def Gap.text : Gap → List Char
  | .blanks cs => cs
  | .breaks (some '\n') [] => [' ']
  | .breaks (some '\n') others => others
  | .breaks (some b) others => b :: others
  | .breaks none others => others

def Gap.isBreak : Gap → Bool
  | .blanks _ => false
  | .breaks _ _ => true

/-- Reads on in a gap. On a new line no tab may stand left of column `margin`. -/
def gap? (margin : Nat) : Nat → Gap → Cursor → Option (Gap × Cursor)
  | 0, g, c => some (g, c)
  | steps + 1, g, c =>
    match c.rest with
    | [] => some (g, c)
    | ch :: _ =>
      if isSpace ch then
        match g with
        | .blanks cs => gap? margin steps (.blanks (cs ++ [ch])) (c.skip 1)
        | .breaks first others =>
          if ch = '\t' ∧ c.column < margin then none
          else gap? margin steps (.breaks first others) (c.skip 1)
      else match c.break?, g with
        | none, _ => some (g, c)
        | some (b, c), .blanks _ => gap? margin steps (.breaks (some b) []) c
        | some (b, c), .breaks first others => gap? margin steps (.breaks first (others ++ [b])) c

/-! ### Plain scalars -/

/-- Characters that end a plain scalar inside a flow collection. -/
def isFlowMark (c : Char) : Bool := c == ',' || c == '[' || c == ']' || c == '{' || c == '}'

/-- The part of a plain scalar up to the next gap. In a flow collection a colon must not stand
directly before a mark. -/
def plainPart? (flow : Bool) : List Char → Option (List Char)
  | [] => some []
  | ch :: rest =>
    if isSpace ch || isBreak ch then some []
    else if flow && ch == ':' && rest.head?.any (fun c => isFlowMark c || c == '?') then none
    else if ch == ':' && atEdge rest || flow && isFlowMark ch then some []
    else (plainPart? flow rest).map (ch :: ·)

/-- A plain scalar, and whether it was left on another line than its last part. `seen` holds the text
so far, last character first. Outside of flow collections a line that is not indented as far as
`margin` ends it. -/
def plainFrom? (flow : Bool) (margin : Nat) (bound : Nat) :
    Nat → List Char → Gap → Cursor → Option (List Char × Bool × Cursor)
  | 0, seen, g, c => some (seen.reverse, g.isBreak, c)
  | steps + 1, seen, g, c =>
    if c.atDocumentMark || c.rest.head? == some '#' then some (seen.reverse, g.isBreak, c)
    else do
      let part ← plainPart? flow c.rest
      let (seen, g) :=
        if part.isEmpty then (seen, g) else (part.reverse ++ g.text.reverse ++ seen, .blanks [])
      let c := c.skip part.length
      if c.rest.isEmpty || !atEdge c.rest then return (seen.reverse, g.isBreak, c)
      else do
        let (g, c) ← gap? margin bound g c
        if !flow && c.column < margin then return (seen.reverse, g.isBreak, c)
        else plainFrom? flow margin bound steps seen g c

def plain? (flow : Bool) (margin : Nat) (bound : Nat) (c : Cursor) :
    Option (List Char × Bool × Cursor) :=
  plainFrom? flow margin bound bound [] (.blanks []) c

/-! ### Scalars in quotes -/

/-- The character of an escape, and how many characters it is written with. -/
def escape? : List Char → Option (Char × Nat)
  | 'x' :: rest => (Text.coded? 2 rest).map fun (c, _) => (c, 4)
  | 'u' :: rest => (Text.coded? 4 rest).map fun (c, _) => (c, 6)
  | 'U' :: rest => (Text.coded? 8 rest).map fun (c, _) => (c, 10)
  | ch :: _ =>
    let named : List (Char × Nat) := [('0', 0), ('a', 7), ('b', 8), ('t', 9), ('\t', 9), ('n', 10),
      ('v', 11), ('f', 12), ('r', 13), ('e', 27), (' ', 32), ('"', 34), ('/', 47), ('\\', 92),
      ('N', 0x85), ('_', 0xA0), ('L', 0x2028), ('P', 0x2029)]
    (named.lookup ch).map fun n => (Char.ofNat n, 2)
  | [] => none

/-- The part of a quoted scalar up to the next gap or the closing quote, added to what was `seen`.
The last component tells that the part ends at an escaped line break. -/
def quotedPart? (double : Bool) : Nat → List Char → Cursor → Option (List Char × Cursor × Bool)
  | 0, seen, c => some (seen, c, false)
  | steps + 1, seen, c =>
    match c.rest with
    | [] => some (seen, c, false)
    | ch :: rest =>
      if isSpace ch || isBreak ch then some (seen, c, false)
      else if !double && ch == '\'' then
        match rest with
        | '\'' :: _ => quotedPart? double steps ('\'' :: seen) (c.skip 2)
        | _ => some (seen, c, false)
      else if double && ch == '"' then some (seen, c, false)
      else if double && ch == '\\' then
        match (c.skip 1).break? with
        | some (_, c) => some (seen, c, true)
        | none => do
          let (e, n) ← escape? rest
          quotedPart? double steps (e :: seen) (c.skip n)
      else quotedPart? double steps (ch :: seen) (c.skip 1)

/-- The rest of a quoted scalar, past its closing quote. -/
def quotedFrom? (double : Bool) (bound : Nat) :
    Nat → List Char → Cursor → Option (List Char × Cursor)
  | 0, _, _ => none
  | steps + 1, seen, c =>
    if c.atDocumentMark || c.rest.isEmpty then none
    else do
      let (seen, c, escaped) ← quotedPart? double bound seen c
      if c.rest.head? == some (if double then '"' else '\'') && !escaped then
        return (seen.reverse, c.skip 1)
      else do
        let start := if escaped then Gap.breaks none [] else .blanks []
        let (g, c) ← gap? 0 bound start c
        quotedFrom? double bound steps (g.text.reverse ++ seen) c

def quoted? (double : Bool) (bound : Nat) (c : Cursor) : Option (List Char × Cursor) :=
  quotedFrom? double bound bound [] (c.skip 1)

/-! ### Blocks of lines -/

/-- What becomes of the line breaks at the end of a block. -/
inductive Chomping where
  | strip | clip | keep
  deriving DecidableEq

def chomping? : Char → Option Chomping
  | '-' => some .strip
  | '+' => some .keep
  | _ => none

/-- The digit of an indentation; zero is none. -/
def increment? (c : Char) : Option Nat :=
  if c.isDigit ∧ c ≠ '0' then some (c.toNat - 48) else none

/-- The two indicators of a block, in either order, and how many characters they take. -/
def header? (cs : List Char) : Option (Chomping × Option Nat × Nat) :=
  match cs with
  | [] => some (.clip, none, 0)
  | a :: rest =>
    match chomping? a with
    | some ch =>
      match rest with
      | d :: _ =>
        if d.isDigit then (increment? d).map fun n => (ch, some n, 2) else some (ch, none, 1)
      | [] => some (ch, none, 1)
    | none =>
      if a.isDigit then do
        let n ← increment? a
        match rest.head?.bind chomping? with
        | some ch => return (ch, some n, 2)
        | none => return (.clip, some n, 1)
      else some (.clip, none, 0)

/-- Past the spaces up to column `indent`; all of them while the indentation is not known. -/
def indentation (indent : Option Nat) (c : Cursor) : Cursor :=
  let spaces := (c.rest.takeWhile (· == ' ')).length
  match indent with
  | none => c.skip spaces
  | some n => c.skip (min spaces (n - c.column))

/-- Past the empty lines before a line of a block. The widest indentation on the way is the block's
when it is not known yet. -/
def emptyLines? (indent : Option Nat) : Nat → Nat → List Char → Cursor →
    Option (Nat × List Char × Cursor)
  | 0, _, _, _ => none
  | steps + 1, widest, breaks, c =>
    let c := indentation indent c
    let widest := max widest c.column
    if c.rest.head? == some '\t' && indent.all (c.column < ·) then none
    else match c.break? with
      | some (b, c) => emptyLines? indent steps widest (breaks ++ [b]) c
      | none => some (widest, breaks, c)

/-- A block while it is read: its text, the last character first, the break behind the last line, and
the breaks of the empty lines behind that. -/
structure Block where
  seen : List Char := []
  last : List Char := []
  empty : List Char := []
  blankLine : Bool := false

/-- Joins the next line to a block. In a folded block one break between two lines is read as a space,
unless one of them starts with a blank. -/
def Block.join (b : Block) (folded : Bool) (blank : Bool) (line : List Char) : List Char :=
  let between :=
    if folded && b.last == ['\n'] && !b.blankLine && !blank then
      if b.empty.isEmpty then [' '] else b.empty
    else b.last ++ b.empty
  line.reverse ++ between.reverse ++ b.seen

def blockLines? (folded : Bool) (indent bound : Nat) : Nat → Block → Cursor → Option (Block × Cursor)
  | 0, _, _ => none
  | steps + 1, b, c =>
    if c.column == indent && !c.rest.isEmpty then do
      let blank := c.rest.head?.any isSpace
      let (line, c) := c.takeWhile fun _ => true
      let (last, c) := match c.break? with
        | some (br, c) => ([br], c)
        | none => ([], c)
      let (_, empty, c) ← emptyLines? (some indent) bound 0 [] c
      blockLines? folded indent bound steps ⟨b.join folded blank line, last, empty, blank⟩ c
    else return (b, c)

def Block.chomped (b : Block) : Chomping → List Char
  | .strip => b.seen.reverse
  | .clip => b.seen.reverse ++ b.last
  | .keep => b.seen.reverse ++ b.last ++ b.empty

/-- A block scalar inside a structure with the given indentation. -/
def block? (folded : Bool) (outer : Int) (bound : Nat) (c : Cursor) :
    Option (List Char × Cursor) := do
  let c := c.skip 1
  let (chomping, increment, width) ← header? c.rest
  let c ← (c.skip width).lineEnd?
  let least := max (outer + 1) 1
  let known := increment.map fun n => (max outer 0).toNat + n
  let (widest, empty, c) ← emptyLines? known bound 0 [] c
  let indent := known.getD (max widest least.toNat)
  let (b, c) ← blockLines? folded indent bound bound { empty } c
  return (b.chomped chomping, c)

end ApiClient.Yaml.Scalar

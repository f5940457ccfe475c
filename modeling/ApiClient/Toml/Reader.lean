import ApiClient.Assoc
import ApiClient.Toml.Scalar
import ApiClient.Toml.Text

/-! TOML text as a tree. A table is written in parts, and how it came about tells which parts may
follow. -/

namespace ApiClient.Toml

/-- How a table came about: with a header of its own, on the way to another header, by a key of
several parts, or in braces. -/
inductive Origin where
  | header | path | dotted | braces
  deriving DecidableEq

/-- The tables of an array come last one first. -/
inductive Item where
  | scalar (t : Tree)
  | array (is : List Item)
  | table (origin : Origin) (entries : List (String × Item))
  | tables (ts : List (List (String × Item)))

abbrev Entries := List (String × Item)

namespace Item

mutual

def toTree : Item → Tree
  | .scalar t => t
  | .array is => .seq (toTrees is)
  | .table _ entries => .map (toPairs entries)
  | .tables ts => .seq (toMaps ts).reverse

def toTrees : List Item → List Tree
  | [] => []
  | i :: is => i.toTree :: toTrees is

def toPairs : List (String × Item) → List (Tree × Tree)
  | [] => []
  | (k, i) :: es => (.str k, i.toTree) :: toPairs es

def toMaps : List (List (String × Item)) → List Tree
  | [] => []
  | es :: ts => .map (toPairs es) :: toMaps ts

end

end Item

/-- Changes the table at the end of a path, making the tables on the way. A table in braces is
complete. A key of several parts does not lead into a table with a header, and any other table on its
way counts as made by such keys from then on. -/
def descend (dotted : Bool) (change : Origin → Entries → Option (Origin × Entries)) :
    List String → Origin → Entries → Option (Origin × Entries)
  | [], origin, entries => change origin entries
  | k :: ks, origin, entries =>
    match entries.lookup k with
    | none => do
      let (o, es) ← descend dotted change ks (if dotted then .dotted else .path) []
      return (origin, Assoc.put k (.table o es) entries)
    | some (.table o es) => do
      guard (o != .braces && !(dotted && o == .header))
      let (o, es) ← descend dotted change ks (if dotted then .dotted else o) es
      return (origin, Assoc.put k (.table o es) entries)
    | some (.tables (es :: ts)) => do
      let (_, es) ← descend dotted change ks .header es
      return (origin, Assoc.put k (.tables (es :: ts)) entries)
    | some _ => none

/-- Adds an entry. A key of several parts adds to tables of such keys only, a key of one part to any
other table. -/
def addEntry (path : List String) (k : String) (item : Item) :
    Origin → Entries → Option (Origin × Entries) :=
  descend true (fun origin entries => do
    guard ((origin == .dotted) == !path.isEmpty)
    guard (entries.lookup k).isNone
    return (origin, Assoc.put k item entries)) path

/-- Opens a table under a header. -/
def openTable (k : String) (origin : Origin) (entries : Entries) : Option (Origin × Entries) :=
  match entries.lookup k with
  | none => some (origin, Assoc.put k (.table .header []) entries)
  | some (.table .path es) => some (origin, Assoc.put k (.table .header es) entries)
  | some _ => none

/-- Opens one more table of an array. -/
def openNext (k : String) (origin : Origin) (entries : Entries) : Option (Origin × Entries) :=
  match entries.lookup k with
  | none => some (origin, Assoc.put k (.tables [[]]) entries)
  | some (.tables ts) => some (origin, Assoc.put k (.tables ([] :: ts)) entries)
  | some _ => none

mutual

/-- A value, with at most `levels` levels of arrays and tables in it. -/
def value? (bound : Nat) : Nat → Nat → List Char → Option (Item × List Char)
  | 0, _, _ => none
  | steps + 1, levels, cs =>
    match cs with
    | '[' :: rest =>
      if levels = 0 then none
      else (items? bound steps (levels - 1) [] rest).map fun (is, rest) => (.array is, rest)
    | '{' :: rest =>
      if levels = 0 then none
      else (pairs? bound steps (levels - 1) [] rest).map fun (es, rest) => (.table .braces es, rest)
    | c :: _ =>
      if c = '"' ∨ c = '\'' then
        (string? bound cs).map fun (s, rest) => (.scalar (.str s), rest)
      else
        let (word, rest) := Scalar.take cs
        (Scalar.tree? word).map fun t => (.scalar t, rest)
    | [] => none

def items? (bound : Nat) : Nat → Nat → List Item → List Char → Option (List Item × List Char)
  | 0, _, _, _ => none
  | steps + 1, levels, seen, cs =>
    match skipLines bound cs with
    | ']' :: rest => some (seen.reverse, rest)
    | cs => do
      let (item, rest) ← value? bound steps levels cs
      match skipLines bound rest with
      | ',' :: rest => items? bound steps levels (item :: seen) rest
      | ']' :: rest => return ((item :: seen).reverse, rest)
      | _ => none

def pairs? (bound : Nat) : Nat → Nat → Entries → List Char → Option (Entries × List Char)
  | 0, _, _, _ => none
  | steps + 1, levels, entries, cs =>
    match skipLines bound cs with
    | '}' :: rest => some (entries, rest)
    | cs => do
      let (path, k, item, rest) ← pair? bound steps levels cs
      let (_, entries) ← addEntry path k item .braces entries
      match skipLines bound rest with
      | ',' :: rest => pairs? bound steps levels entries rest
      | '}' :: rest => return (entries, rest)
      | _ => none

/-- A key and its value; of the key, the path to its last part, and that part. -/
def pair? (bound : Nat) : Nat → Nat → List Char →
    Option (List String × String × Item × List Char)
  | 0, _, _ => none
  | steps + 1, levels, cs => do
    let (parts, rest) ← key? bound cs
    let k ← parts.getLast?
    match rest with
    | '=' :: rest => do
      let (item, rest) ← value? bound steps levels (skipBlanks rest)
      return (parts.dropLast, k, item, rest)
    | _ => none

end

/-- A text while it is read: all entries so far, and the header above the next ones. -/
structure Draft where
  entries : Entries := []
  header : List String := []

namespace Draft

def change (d : Draft) (header : List String) (path : List String)
    (f : Origin → Entries → Option (Origin × Entries)) : Option Draft := do
  let (_, entries) ← descend false f path .header d.entries
  return ⟨entries, header⟩

/-- A header in brackets, from behind them; `close` is what ends it. -/
def openHeader? (d : Draft) (bound : Nat) (close : List Char)
    (f : String → Origin → Entries → Option (Origin × Entries)) (cs : List Char) :
    Option (Draft × List Char) := do
  let (parts, rest) ← key? bound cs
  let k ← parts.getLast?
  guard (close.isPrefixOf rest)
  return (← d.change parts parts.dropLast (f k), rest.drop close.length)

/-- One line: a header, an entry, or nothing. -/
def line? (d : Draft) (bound : Nat) (cs : List Char) : Option (Draft × List Char) :=
  match skipBlanks cs with
  | '[' :: '[' :: rest => d.openHeader? bound [']', ']'] openNext rest
  | '[' :: rest => d.openHeader? bound [']'] openTable rest
  | [] => some (d, [])
  | c :: rest =>
    if c = '#' ∨ c = '\n' ∨ c = '\r' then some (d, c :: rest)
    else do
      let (path, k, item, rest) ← pair? bound (3 * bound) 80 (c :: rest)
      return (← d.change d.header d.header (addEntry path k item), rest)

def lines? (bound : Nat) : Nat → Draft → List Char → Option Draft
  | 0, _, _ => none
  | steps + 1, d, cs => do
    let (d, rest) ← d.line? bound cs
    let rest ← lineEnd? rest
    match rest with
    | [] => return d
    | _ => lines? bound steps d rest

end Draft

/-- A whole text is one table. A byte order mark before it is passed over. -/
def tree? (text : String) : Option Tree := do
  let cs := text.toList
  let cs := if cs.head?.any (·.toNat == 0xFEFF) then cs.drop 1 else cs
  let bound := cs.length + 1
  let d ← Draft.lines? bound bound {} cs
  return (Item.table .header d.entries).toTree

end ApiClient.Toml

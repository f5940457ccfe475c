import ApiClient.Document.Format
import ApiClient.Yaml.Core
import ApiClient.Yaml.Node

/-! YAML nodes taken for what is expected of them. Every scalar can be taken for a text, and an empty
one for an empty collection. Aliases are followed where a value is looked at; how often is bounded by
the size of the document. -/

namespace ApiClient.Yaml

/-- A node, and how many levels of collections may still be entered. The node of an empty text is
missing. -/
structure Place where
  levels : Nat
  node : Option Node

/-- Reading with a number of aliases that may still be followed. -/
abbrev Typed (α : Type) := StateT Nat Option α

namespace Typed

def ofOption (a : Option α) : Typed α := fun left => a.map (·, left)

/-- The scalar or the collection that a node stands for. -/
def target (anchors : List (Nat × Node)) : Node → Typed Node
  | .anchored _ n => return n
  | .alias i => do
    match ← get with
    | 0 => failure
    | left + 1 => do
      set left
      match anchors.lookup i with
      | some n => return n
      | none => failure
  | n => return n

def targetOf (anchors : List (Nat × Node)) (p : Place) : Typed (Option Node) :=
  match p.node with
  | some n => some <$> target anchors n
  | none => return none

/-- A node as it stands. -/
def tree (anchors : List (Nat × Node)) : Nat → Node → Typed Tree
  | levels, n => do
    match ← target anchors n with
    | .scalar tag plain s => ofOption (Core.scalarTree? tag plain s)
    | .sequence tag items =>
      match levels with
      | 0 => failure
      | levels + 1 => if Core.isLocal tag then failure else .seq <$> items.mapM (tree anchors levels)
    | .mapping tag entries =>
      match levels with
      | 0 => failure
      | levels + 1 =>
        if Core.isLocal tag then failure
        else .map <$> entries.mapM fun (k, v) => do
          let k ← tree anchors levels k
          return (k, ← tree anchors levels v)
    | _ => failure

def text (anchors : List (Nat × Node)) (n : Node) : Typed String := do
  match ← target anchors n with
  | .scalar _ _ s => return s
  | _ => failure

/-- The items of a collection; an empty plain scalar or an empty text has none. -/
def collection (anchors : List (Nat × Node)) (p : Place) (items : Node → Option (List α)) :
    Typed (Nat × List α) := do
  match ← targetOf anchors p with
  | none => return (p.levels, [])
  | some (.scalar _ true "") => return (p.levels, [])
  | some n =>
    match items n, p.levels with
    | some vs, levels + 1 => return (levels, vs)
    | _, _ => failure

def list (anchors : List (Nat × Node)) (p : Place) : Typed (List Place) := do
  let (levels, items) ← collection anchors p fun
    | .sequence _ items => some items
    | _ => none
  return items.map fun n => ⟨levels, some n⟩

def table (anchors : List (Nat × Node)) (p : Place) : Typed (List (String × Place)) := do
  let (levels, entries) ← collection anchors p fun
    | .mapping _ entries => some entries
    | _ => none
  entries.mapM fun (k, v) => do return (← text anchors k, ⟨levels, some v⟩)

/-- A known field may be given once; unknown keys may be repeated. -/
def record (anchors : List (Nat × Node)) (names : List String) (p : Place) :
    Typed (Record Place) := do
  let given := (← table anchors p).filter fun (k, _) => names.contains k
  if (given.map (·.1)).eraseDups.length = given.length then return ⟨given, false⟩ else failure

/-- A scalar that says null is no value. Where a tag demands null, nothing else may stand. -/
def optional (anchors : List (Nat × Node)) (p : Place) : Typed (Option Place) := do
  match ← targetOf anchors p with
  | none => return none
  | some n =>
    match n with
    | .scalar (some "tag:yaml.org,2002:null") true s =>
      if Core.isNull s then return none else failure
    | .scalar none true s =>
      if s = "" ∨ Core.isNull s then return none else return some ⟨p.levels, some n⟩
    | n => return some ⟨p.levels, some n⟩

def format (anchors : List (Nat × Node)) : Format Typed Place where
  record := record anchors
  list := list anchors
  table := table anchors
  text p := ofOption p.node >>= text anchors
  optional := optional anchors
  tree p := ofOption p.node >>= tree anchors p.levels

end Typed

/-- Reads a whole text. Of the nodes that share a number the last one counts; collections nest to 128
levels; and for each part of the document a hundred aliases may be followed. -/
def read? (read : Format Typed Place → Place → Typed α) (text : String) : Option α := do
  let root ← Node.ofText? text
  let anchors := (root.elim [] Node.anchors).reverse
  let (a, _) ← (read (Typed.format anchors) ⟨128, root⟩).run (100 * root.elim 1 Node.size)
  return a

end ApiClient.Yaml

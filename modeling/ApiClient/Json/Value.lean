import ApiClient.Assoc
import ApiClient.Tree

/-! JSON values. An object keeps the order of its keys and has each key once. -/

namespace ApiClient

inductive Json where
  | null
  | bool (b : Bool)
  | int (n : Int)
  | float (x : Binary64)
  | str (s : String)
  | arr (items : List Json)
  | obj (fields : List (String × Json))

namespace Json

mutual

/-- Equality of values: an integer is no floating-point number, and the order of the keys of an
object does not count. -/
def same : Json → Json → Bool
  | .null, .null => true
  | .bool a, .bool b => a == b
  | .int a, .int b => a == b
  | .float a, .float b => a.same b
  | .str a, .str b => a == b
  | .arr as, .arr bs => sameItems as bs
  | .obj fs, .obj gs => fs.length == gs.length && sameFields fs gs
  | _, _ => false

def sameItems : List Json → List Json → Bool
  | [], [] => true
  | a :: as, b :: bs => a.same b && sameItems as bs
  | _, _ => false

/-- Whether every field is one of `gs` with the same value. -/
def sameFields : List (String × Json) → List (String × Json) → Bool
  | [], _ => true
  | (k, a) :: fs, gs =>
    (match gs.lookup k with
      | some b => a.same b
      | none => false) && sameFields fs gs

end

mutual

/-- A repeated key keeps its first place and takes the last value. The keys are strings, and a number
that is not finite has no place in JSON. -/
def ofTree? : Tree → Option Json
  | .null => some .null
  | .bool b => some (.bool b)
  | .unsigned n => some (.int n)
  | .signed n => some (.int n)
  | .float x => some (.float x)
  | .nonFinite => some .null
  | .str s => some (.str s)
  | .seq items => (ofTrees? items).map .arr
  | .map entries => (ofEntries? [] entries).map .obj

def ofTrees? : List Tree → Option (List Json)
  | [] => some []
  | t :: ts => do
    let v ← ofTree? t
    let vs ← ofTrees? ts
    return v :: vs

def ofEntries? (fields : List (String × Json)) : List (Tree × Tree) → Option (List (String × Json))
  | [] => some fields
  | (.str k, t) :: es => do
    let v ← ofTree? t
    ofEntries? (Assoc.put k v fields) es
  | _ :: _ => none

end

mutual

def toTree : Json → Tree
  | .null => .null
  | .bool b => .bool b
  | .int n => .ofInt n
  | .float x => .float x
  | .str s => .str s
  | .arr items => .seq (toTrees items)
  | .obj fields => .map (toEntries fields)

def toTrees : List Json → List Tree
  | [] => []
  | v :: vs => v.toTree :: toTrees vs

def toEntries : List (String × Json) → List (Tree × Tree)
  | [] => []
  | (k, v) :: fs => (.str k, v.toTree) :: toEntries fs

end

def isStr : Json → Bool
  | .str _ => true
  | _ => false

end Json

end ApiClient

import ApiClient.Decimal.Binary64

/-! What a data text says before anything is expected of it: scalars, sequences and mappings. Keys
may be of any kind and may be repeated. -/

namespace ApiClient

inductive Tree where
  | null
  | bool (b : Bool)
  | unsigned (n : Nat)
  | signed (n : Int)
  | float (x : Binary64)
  | nonFinite
  | str (s : String)
  | seq (items : List Tree)
  | map (entries : List (Tree × Tree))

namespace Tree

mutual

/-- How many levels a tree has. -/
def depth : Tree → Nat
  | .seq items => depthList items + 1
  | .map entries => depthEntries entries + 1
  | _ => 1

def depthList : List Tree → Nat
  | [] => 0
  | t :: ts => max t.depth (depthList ts)

def depthEntries : List (Tree × Tree) → Nat
  | [] => 0
  | (_, v) :: es => max v.depth (depthEntries es)

end

/-- The number that a data text's integer stands for: one that is not negative has no sign. -/
def ofInt (n : Int) : Tree := if n < 0 then .signed n else .unsigned n.toNat

end Tree

end ApiClient

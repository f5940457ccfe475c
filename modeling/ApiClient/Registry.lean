import ApiClient.Json.Value
import ApiClient.TypeExpr

/-! The named shapes of a description. A name that holds a shape keeps it for good; another shape
under the same name goes to the first free numbered variant of it. -/

namespace ApiClient

/-- A shape with a name. -/
inductive Definition where
  | object (fields : Fields)
  | enum (values : List Json)
  | alias (type : TypeExpr)

def Definition.same : Definition → Definition → Bool
  | .object fs, .object gs => fs.length == gs.length && TypeExpr.sameFields fs gs
  | .enum vs, .enum ws => Json.sameItems vs ws
  | .alias t, .alias u => t.same u
  | _, _ => false

/-- The entries stand in the order of their names. A reserved name is promised to a shape that is
still being worked out. -/
structure Registry where
  entries : List (String × Definition) := []
  reserved : List String := []

namespace Registry

def empty : Registry := {}

def get? (g : Registry) (name : String) : Option Definition := g.entries.lookup name

def contains (g : Registry) (name : String) : Bool := (g.get? name).isSome

def names (g : Registry) : List String := g.entries.map (·.1)

/-- Puts an entry in its place, over the one of the same name. -/
def insertEntry (name : String) (d : Definition) :
    List (String × Definition) → List (String × Definition)
  | [] => [(name, d)]
  | (n, e) :: rest =>
    if name = n then (name, d) :: rest
    else if name < n then (name, d) :: (n, e) :: rest
    else (n, e) :: insertEntry name d rest

/-- Stores a shape under a name and ends the reservation of the name. -/
def fill (g : Registry) (name : String) (d : Definition) : Registry :=
  ⟨insertEntry name d g.entries, g.reserved.erase name⟩

/-- The name itself, then `name2`, `name3`, … -/
def numbered (name : String) (k : Nat) : String := if k = 1 then name else name ++ toString k

/-- One candidate more than there are names in use, so that one of them is free. -/
def candidates (g : Registry) (name : String) : List String :=
  (List.range (g.entries.length + g.reserved.length + 1)).map fun i => numbered name (i + 1)

def vacant (g : Registry) (name : String) : Bool := !g.contains name && !g.reserved.contains name

/-- Whether a name holds a shape equal to `d`. -/
def holds (g : Registry) (name : String) (d : Definition) : Bool :=
  match g.get? name with
  | some e => e.same d
  | none => false

/-- The name under which a shape is found afterwards: the first candidate that holds an equal shape
already, or is free. -/
def register (g : Registry) (name : String) (d : Definition) : String × Registry :=
  match (g.candidates name).find? fun c => g.holds c d || g.vacant c with
  | some c => (c, if g.holds c d then g else { g with entries := insertEntry c d g.entries })
  | none => (name, g)

/-- Takes the first free candidate out of use until it is filled. -/
def reserve (g : Registry) (name : String) : String × Registry :=
  match (g.candidates name).find? g.vacant with
  | some c => (c, { g with reserved := c :: g.reserved })
  | none => (name, g)

end Registry

end ApiClient

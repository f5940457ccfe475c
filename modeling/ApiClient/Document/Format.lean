import ApiClient.Assoc
import ApiClient.Tree

/-! Taking data values for what is expected of them. A format says what counts as a record, a list, a
table or a text; what cannot be taken fails. -/

namespace ApiClient

/-- The fields of a record that are given, each at most once. A record may be written as a list of
its fields; then only fields with a default may be left out, at the end. -/
structure Record (ν : Type) where
  given : List (String × ν)
  byPlace : Bool

/-- The values `ν` of a data format. -/
structure Format (m : Type → Type) (ν : Type) where
  record : List String → ν → m (Record ν)
  list : ν → m (List ν)
  table : ν → m (List (String × ν))
  text : ν → m String
  optional : ν → m (Option ν)
  tree : ν → m Tree

namespace Format

variable {m : Type → Type} [Monad m] [MonadExcept Unit m] {ν α : Type}

def required (r : Record ν) (name : String) (read : ν → m α) : m α :=
  match r.given.lookup name with
  | some v => read v
  | none => throw ()

def defaulted (r : Record ν) (name : String) (default : α) (read : ν → m α) : m α :=
  match r.given.lookup name with
  | some v => read v
  | none => pure default

def optionally (f : Format m ν) (r : Record ν) (name : String) (read : ν → m α) : m (Option α) :=
  match r.given.lookup name with
  | some v => do
    match ← f.optional v with
    | some v => return some (← read v)
    | none => return none
  | none => if r.byPlace then throw () else pure none

def listOf (f : Format m ν) (read : ν → m α) (v : ν) : m (List α) := do
  (← f.list v).mapM read

def pairOf (read : ν → m α) (e : String × ν) : m (String × α) := do
  return (e.1, ← read e.2)

/-- A repeated key keeps its first place and takes the last value. -/
def tableOf (f : Format m ν) (read : ν → m α) (v : ν) : m (List (String × α)) := do
  return Assoc.ofList (← (← f.table v).mapM (pairOf read))

/-- A value that is expected of the plain tree. -/
def within (f : Format m ν) (read : Tree → Option α) (v : ν) : m α := do
  match read (← f.tree v) with
  | some a => return a
  | none => throw ()

end Format

namespace Tree

/-- The field that a key names: an unknown key names none, a number names a field by its place, and
any other key is no name at all. -/
def fieldName? (names : List String) : Tree → Option (Option String)
  | .str s => some (if names.contains s then some s else none)
  | .unsigned n => some names[n]?
  | _ => none

/-- The known fields among the entries of a mapping. -/
def knownFields (names : List String) : List (Tree × Tree) → Option (List (String × Tree))
  | [] => some []
  | (k, v) :: rest => do
    let name ← fieldName? names k
    let fields ← knownFields names rest
    match name with
    | some n => if (fields.map (·.1)).contains n then none else return (n, v) :: fields
    | none => return fields

def record? (names : List String) : Tree → Option (Record Tree)
  | .map entries => (knownFields names entries).map (⟨·, false⟩)
  | .seq items => if items.length ≤ names.length then some ⟨names.zip items, true⟩ else none
  | _ => none

def str? : Tree → Option String
  | .str s => some s
  | _ => none

def bool? : Tree → Option Bool
  | .bool b => some b
  | _ => none

def seq? : Tree → Option (List Tree)
  | .seq items => some items
  | _ => none

def entry? (e : Tree × Tree) : Option (String × Tree) := e.1.str?.map (·, e.2)

def table? : Tree → Option (List (String × Tree))
  | .map entries => entries.mapM entry?
  | _ => none

def present : Tree → Option Tree
  | .null => none
  | t => some t

/-- Every value is what it says: no text is taken for a number, nor a number for a text. -/
def strict : Format Option Tree where
  record := record?
  list := seq?
  table := table?
  text := str?
  optional t := some t.present
  tree := some

end Tree

end ApiClient

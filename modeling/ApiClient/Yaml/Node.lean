import ApiClient.Assoc
import ApiClient.Yaml.Token

/-! YAML tokens as nodes. A text holds at most one document. -/

namespace ApiClient.Yaml

/-- An alias stands for the node with the same number. -/
inductive Node where
  | scalar (tag : Option String) (plain : Bool) (text : String)
  | sequence (tag : Option String) (items : List Node)
  | mapping (tag : Option String) (entries : List (Node × Node))
  | alias (anchor : Nat)
  | anchored (anchor : Nat) (node : Node)

namespace Node

def empty : Node := .scalar none true ""

mutual

/-- The anchored nodes of a document, in its order. -/
def anchors : Node → List (Nat × Node)
  | .scalar _ _ _ => []
  | .sequence _ items => anchorsOfItems items
  | .mapping _ entries => anchorsOfEntries entries
  | .alias _ => []
  | .anchored n node => (n, node) :: node.anchors

def anchorsOfItems : List Node → List (Nat × Node)
  | [] => []
  | n :: ns => n.anchors ++ anchorsOfItems ns

def anchorsOfEntries : List (Node × Node) → List (Nat × Node)
  | [] => []
  | (k, v) :: es => k.anchors ++ v.anchors ++ anchorsOfEntries es

end

mutual

/-- The size of a node: one for each scalar and alias, two for each collection. -/
def size : Node → Nat
  | .scalar _ _ _ => 1
  | .sequence _ items => 2 + sizeOfItems items
  | .mapping _ entries => 2 + sizeOfEntries entries
  | .alias _ => 1
  | .anchored _ node => node.size

def sizeOfItems : List Node → Nat
  | [] => 0
  | n :: ns => n.size + sizeOfItems ns

def sizeOfEntries : List (Node × Node) → Nat
  | [] => 0
  | (k, v) :: es => k.size + v.size + sizeOfEntries es

end

end Node

/-- What remains of the tokens; the number of each anchor's name; what tag handles stand for. -/
structure Reading where
  tokens : List Token
  anchors : List (String × Nat) := []
  handles : List (String × String) := []

abbrev Parser (α : Type) := StateT Reading Option α

namespace Parser

def peek : Parser (Option Token) := do return (← get).tokens.head?

def skip : Parser Unit := modify fun r => { r with tokens := r.tokens.drop 1 }

/-- Whether the next token is one of `ts`. -/
def sees (ts : List Token) : Parser Bool := do
  match ← peek with
  | some t => return ts.contains t
  | none => return false

/-- Takes the token `t` if it is next. -/
def accept (t : Token) : Parser Bool := do
  if ← sees [t] then
    skip
    return true
  else return false

def expect (t : Token) : Parser Unit := do
  if ← accept t then return () else failure

/-! ### Properties -/

def anchor : Parser (Option String) := do
  match ← peek with
  | some (.anchor name) =>
    skip
    return some name
  | _ => return none

/-- A tag in full. Without a handle it is its suffix. -/
def fullTag (handle suffix : String) : Parser String := do
  if handle = "" then return suffix
  else match (← get).handles.lookup handle with
    | some start => return start ++ suffix
    | none => failure

def tag : Parser (Option String) := do
  match ← peek with
  | some (.tag handle suffix) =>
    skip
    return some (← fullTag handle suffix)
  | _ => return none

/-- An anchor and a tag, in either order. -/
def properties : Parser (Option String × Option String) := do
  match ← anchor with
  | some name => return (some name, ← tag)
  | none =>
    let t ← tag
    return (← anchor, t)

/-- The number of a new anchor is the count of the names before it, so that anchors may share a
number when a name is used again; the last node with a number counts. -/
def number : Option String → Parser (Option Nat)
  | none => return none
  | some name => do
    let r ← get
    let n := r.anchors.length
    set { r with anchors := Assoc.put name n r.anchors }
    return some n

def anchored : Option Nat → Node → Node
  | some n, node => .anchored n node
  | none, node => node

/-! ### Nodes -/

mutual

/-- A node. Block collections need `block`; a sequence that is not indented further than the mapping
around it needs `flush`. -/
def node : Nat → (block flush : Bool) → Parser Node
  | 0, _, _ => failure
  | steps + 1, block, flush => do
    match ← peek with
    | some (.alias name) =>
      skip
      match (← get).anchors.lookup name with
      | some n => return .alias n
      | none => failure
    | _ => do
      let (name, tag) ← properties
      let bare := name.isNone && tag.isNone
      match ← peek with
      | some (.scalar text plain) =>
        let n ← number name
        skip
        return anchored n (.scalar tag plain text)
      | some .item =>
        if flush then
          let n ← number name
          return anchored n (.sequence tag (← flushItems steps))
        else if bare then failure
        else return anchored (← number name) (.scalar tag true "")
      | some .flowSequenceStart =>
        let n ← number name
        skip
        return anchored n (.sequence tag (← flowItems steps true))
      | some .flowMappingStart =>
        let n ← number name
        skip
        return anchored n (.mapping tag (← flowEntries steps true))
      | some .sequenceStart =>
        if block then
          let n ← number name
          skip
          return anchored n (.sequence tag (← items steps))
        else if bare then failure
        else return anchored (← number name) (.scalar tag true "")
      | some .mappingStart =>
        if block then
          let n ← number name
          skip
          return anchored n (.mapping tag (← entries steps))
        else if bare then failure
        else return anchored (← number name) (.scalar tag true "")
      | _ => if bare then failure else return anchored (← number name) (.scalar tag true "")

/-- A node, or an empty one when one of `ends` is next. -/
def nodeUnless : Nat → (ends : List Token) → (block flush : Bool) → Parser Node
  | 0, _, _, _ => failure
  | steps + 1, ends, block, flush => do
    if ← sees ends then return .empty else node steps block flush

/-- The items of a block sequence, to its end. -/
def items : Nat → Parser (List Node)
  | 0 => failure
  | steps + 1 => do
    if ← accept .item then
      let n ← nodeUnless steps [.item, .blockEnd] true false
      return n :: (← items steps)
    else
      expect .blockEnd
      return []

/-- The items of a sequence that has no end of its own. -/
def flushItems : Nat → Parser (List Node)
  | 0 => failure
  | steps + 1 => do
    if ← accept .item then
      let n ← nodeUnless steps [.item, .key, .value, .blockEnd] true false
      return n :: (← flushItems steps)
    else return []

/-- The entries of a block mapping, to its end. -/
def entries : Nat → Parser (List (Node × Node))
  | 0 => failure
  | steps + 1 => do
    if ← accept .key then
      let k ← nodeUnless steps [.key, .value, .blockEnd] true true
      let v ← valueUnless steps [.key, .value, .blockEnd] true
      return (k, v) :: (← entries steps)
    else
      expect .blockEnd
      return []

/-- What follows a colon, if there is one. -/
def valueUnless : Nat → (ends : List Token) → (block : Bool) → Parser Node
  | 0, _, _ => failure
  | steps + 1, ends, block => do
    if ← accept .value then nodeUnless steps ends block block else return .empty

/-- The items of a flow sequence, to its end. An item with a key is a mapping of one entry. -/
def flowItems : Nat → (first : Bool) → Parser (List Node)
  | 0, _ => failure
  | steps + 1, first => do
    if ← accept .flowSequenceEnd then return []
    else
      if !first then expect .separator
      if ← accept .flowSequenceEnd then return []
      else if ← accept .key then
        let n ← flowPair steps
        return n :: (← flowItems steps false)
      else
        let n ← node steps false false
        return n :: (← flowItems steps false)

/-- The entry of a flow sequence behind its key mark. Without a key, the token that is found in its
place is passed over. -/
def flowPair : Nat → Parser Node
  | 0 => failure
  | steps + 1 => do
    let k ← if ← sees [.value, .separator, .flowSequenceEnd] then do
        skip
        pure .empty
      else node steps false false
    let v ← valueUnless steps [.separator, .flowSequenceEnd] false
    return .mapping none [(k, v)]

/-- The entries of a flow mapping, to its end. -/
def flowEntries : Nat → (first : Bool) → Parser (List (Node × Node))
  | 0, _ => failure
  | steps + 1, first => do
    if ← accept .flowMappingEnd then return []
    else
      if !first then expect .separator
      if ← accept .flowMappingEnd then return []
      else if ← accept .key then
        let k ← nodeUnless steps [.value, .separator, .flowMappingEnd] false false
        let v ← valueUnless steps [.separator, .flowMappingEnd] false
        return (k, v) :: (← flowEntries steps false)
      else
        let k ← node steps false false
        return (k, .empty) :: (← flowEntries steps false)

end

/-! ### The document -/

/-- Directives: one version of YAML at most, and no handle twice. -/
def directives : Nat → (versioned : Bool) → Parser Unit
  | 0, _ => failure
  | steps + 1, versioned => do
    match ← peek with
    | some (.version major minor) =>
      skip
      if versioned || major != 1 || !(minor == 1 || minor == 2) then failure
      else directives steps true
    | some (.tagHandle handle start) =>
      skip
      let r ← get
      if (r.handles.lookup handle).isSome then failure
      else do
        set { r with handles := r.handles ++ [(handle, start)] }
        directives steps versioned
    | _ => modify fun r =>
      { r with handles := r.handles ++ [("!", "!"), ("!!", "tag:yaml.org,2002:")] }

def isDirective : Token → Bool
  | .version _ _ => true
  | .tagHandle _ _ => true
  | _ => false

/-- The document of a text; none when there is nothing at all. -/
def document (steps : Nat) : Parser (Option Node) := do
  match ← peek with
  | none => return none
  | some t => do
    directives steps false
    let n ← if isDirective t || t == .documentStart then do
        expect .documentStart
        match ← peek with
        | none => pure .empty
        | some t =>
          if isDirective t || t == .documentStart || t == .documentEnd then pure .empty
          else node steps true false
      else node steps true false
    modify fun r => { r with tokens := r.tokens.dropWhile (· == .documentEnd) }
    match ← peek with
    | none => return some n
    | some _ => failure

end Parser

/-- The outer option tells whether the text can be read, the inner one whether it holds a node. -/
def Node.ofText? (text : String) : Option (Option Node) := do
  let tokens ← Token.ofText? text
  let bound := 3 * tokens.length + 3
  let (n, _) ← (Parser.document bound).run { tokens }
  return n

end ApiClient.Yaml

import ApiClient.Yaml.Scalar

/-! YAML text as tokens. Structure that is shown by indentation alone gets tokens of its own. A key is
recognised by the colon behind it, and its token is put in front of it afterwards. -/

namespace ApiClient.Yaml

inductive Token where
  | version (major minor : Nat)
  | tagHandle (handle start : String)
  | documentStart | documentEnd
  | sequenceStart | mappingStart | blockEnd
  | flowSequenceStart | flowSequenceEnd | flowMappingStart | flowMappingEnd
  | item | separator | key | value
  | alias (name : String)
  | anchor (name : String)
  | tag (handle suffix : String)
  | scalar (text : String) (plain : Bool)
  deriving DecidableEq

/-- A place where a key may have begun: the number of tokens before it, and where in the text it
stands. A required key must turn out to be one. -/
structure PendingKey where
  required : Bool
  place : Nat
  index : Nat
  line : Nat
  column : Nat

/-- A text that is read up to the cursor. The tokens come last one first. Each open flow collection
has a pending key outside of it. -/
structure Lexer where
  cursor : Cursor
  tokens : List Token := []
  count : Nat := 0
  indent : Int := -1
  indents : List Int := []
  key : Option PendingKey := none
  outer : List (Option PendingKey) := []
  keyAllowed : Bool := true

namespace Lexer

def inFlow (l : Lexer) : Bool := !l.outer.isEmpty

def emit (l : Lexer) (t : Token) : Lexer := { l with tokens := t :: l.tokens, count := l.count + 1 }

/-- Puts a token behind the first `place` tokens. -/
def insert (l : Lexer) (place : Nat) (t : Token) : Lexer :=
  let later := l.count - place
  { l with tokens := l.tokens.take later ++ t :: l.tokens.drop later, count := l.count + 1 }

/-- Emits a token for the next `n` characters. -/
def mark (l : Lexer) (n : Nat) (t : Token) : Lexer :=
  { l.emit t with cursor := l.cursor.skip n }

def allowKey (l : Lexer) (allowed : Bool) : Lexer := { l with keyAllowed := allowed }

/-- A key is not followed by its colon here. -/
def dropKey? (l : Lexer) : Option Lexer :=
  if l.key.any (·.required) then none else some { l with key := none }

/-- The next token may begin a key. -/
def saveKey? (l : Lexer) : Option Lexer :=
  if l.keyAllowed then do
    let l ← l.dropKey?
    let c := l.cursor
    let required := !l.inFlow && l.indent == (c.column : Int)
    return { l with key := some ⟨required, l.count, c.index, c.line, c.column⟩ }
  else some l

/-- A key ends on its line, within 1024 octets. -/
def isStale (c : Cursor) (k : PendingKey) : Bool :=
  decide (k.line < c.line) || decide (k.index + 1024 < c.index)

def dropStale? (l : Lexer) : Option Lexer :=
  let stale (k : PendingKey) := isStale l.cursor k
  let fresh (k : Option PendingKey) := k.filter fun k => !stale k
  if (l.key :: l.outer).any fun k => k.any fun k => stale k && k.required then none
  else some { l with key := fresh l.key, outer := l.outer.map fresh }

/-- Opens a block collection that is indented further than the present one. -/
def roll (l : Lexer) (column place : Nat) (t : Token) : Lexer :=
  if !l.inFlow && l.indent < (column : Int) then
    { l.insert place t with indent := column, indents := l.indent :: l.indents }
  else l

/-- Ends the block collections that are indented further than `column`. -/
def unrollFrom (column : Int) : List Int → Lexer → Lexer
  | [], l => l
  | i :: is, l =>
    if column < l.indent then unrollFrom column is { l.emit .blockEnd with indent := i, indents := is }
    else l

def unroll (l : Lexer) (column : Int) : Lexer :=
  if l.inFlow then l else unrollFrom column l.indents l

/-- Past blanks, comments and empty lines. A tab is no indentation where a key may begin. -/
def skipToToken : Nat → Lexer → Lexer
  | 0, l => l
  | steps + 1, l =>
    let c := l.cursor
    let c := if c.column == 0 && c.rest.head?.any (·.toNat == 0xFEFF) then c.skip 1 else c
    let c := c.skipWhile fun ch => ch == ' ' || ch == '\t' && (l.inFlow || !l.keyAllowed)
    let c := if c.rest.head? == some '#' then c.skipWhile fun _ => true else c
    match c.break? with
    | some (_, c) => skipToToken steps { l with cursor := c, keyAllowed := l.keyAllowed || !l.inFlow }
    | none => { l with cursor := c }

/-! ### Directives -/

def number? (cs : List Char) : Option (Nat × List Char) :=
  let ds := cs.takeWhile Char.isDigit
  if 9 < ds.length then none else (Text.natural? 10 ds).map (·, cs.drop ds.length)

def version? (cs : List Char) : Option (Token × List Char) := do
  let (major, rest) ← number? (cs.dropWhile isSpace)
  match rest with
  | '.' :: rest => do
    let (minor, rest) ← number? rest
    return (.version major minor, rest)
  | _ => none

/-- `!`, `!!` or `!word!`. Outside of directives the second mark may be missing: what follows is then
the beginning of a suffix. -/
def handle? (directive : Bool) : List Char → Option (List Char × List Char)
  | '!' :: cs =>
    let word := cs.takeWhile isWordChar
    match cs.drop word.length with
    | '!' :: rest => some ('!' :: word ++ ['!'], rest)
    | rest => if directive && !word.isEmpty then none else some ('!' :: word, rest)
  | _ => none

def isUriChar (verbatim : Bool) (c : Char) : Bool :=
  isWordChar c || ";/?:@&=+$.!~*'()".toList.contains c || verbatim && ",[]".toList.contains c

/-- One octet after a percent sign. -/
def octet? : List Char → Option (Nat × List Char)
  | '%' :: a :: b :: rest => (Text.natural? 16 [a, b]).map (·, rest)
  | _ => none

def octets? : Nat → List Char → Option (List Char × List Char)
  | 0, cs => some ([], cs)
  | n + 1, cs => do
    let (o, rest) ← octet? cs
    guard (0x80 ≤ o ∧ o < 0xC0)
    let (os, rest) ← octets? n rest
    return (Char.ofNat o :: os, rest)

/-- The octets of one escaped character, as one character each. -/
def uriEscape? (cs : List Char) : Option (List Char × List Char) := do
  let (o, rest) ← octet? cs
  let more ← if o < 0x80 then some 0 else if 0xC0 ≤ o ∧ o < 0xE0 then some 1
    else if 0xE0 ≤ o ∧ o < 0xF0 then some 2 else if 0xF0 ≤ o ∧ o < 0xF8 then some 3 else none
  let (os, rest) ← octets? more rest
  return (Char.ofNat o :: os, rest)

def uri? (verbatim : Bool) : Nat → List Char → Option (List Char × List Char)
  | 0, cs => some ([], cs)
  | steps + 1, cs =>
    match cs with
    | [] => some ([], [])
    | c :: rest =>
      if c = '%' then do
        let (os, rest) ← uriEscape? cs
        let (more, rest) ← uri? verbatim steps rest
        return (os ++ more, rest)
      else if isUriChar verbatim c then do
        let (more, rest) ← uri? verbatim steps rest
        return (c :: more, rest)
      else some ([], cs)

/-- What counts of a tag: it ends before a zero octet. -/
def untilZero (cs : List Char) : List Char := cs.takeWhile fun c => c.toNat != 0

def tagDirective? (bound : Nat) (cs : List Char) : Option (Token × List Char) := do
  let (handle, rest) ← handle? true (cs.dropWhile isSpace)
  guard (rest.head?.any isSpace)
  let (start, rest) ← uri? true bound (rest.dropWhile isSpace)
  guard (!start.isEmpty && atEdge rest)
  return (.tagHandle (String.ofList handle) (String.ofList (untilZero start)), rest)

def directive? (bound : Nat) (l : Lexer) : Option Lexer := do
  let l ← (l.unroll (-1)).dropKey?
  let c := l.cursor.skip 1
  let (word, c) := c.takeWhile isWordChar
  guard (!word.isEmpty && atEdge c.rest)
  let (t, rest) ← match String.ofList word with
    | "YAML" => version? c.rest
    | "TAG" => tagDirective? bound c.rest
    | _ => none
  let c ← (c.skip (c.rest.length - rest.length)).lineEnd?
  let c := (c.break?.map (·.2)).getD c
  return { l.emit t with cursor := c, keyAllowed := false }

/-! ### Properties of nodes -/

/-- The name of an anchor or an alias, which a blank or a mark must follow. -/
def anchor? (l : Lexer) (token : String → Token) : Option Lexer := do
  let l := (← l.saveKey?).allowKey false
  let (name, c) := (l.cursor.skip 1).takeWhile isWordChar
  guard (!name.isEmpty && (atEdge c.rest || c.rest.head?.any "?:,]\x7d%@\x60".toList.contains))
  return { l.emit (token (String.ofList name)) with cursor := c }

/-- A tag: verbatim, with a handle, or with the handle `!` and all the rest as its suffix. -/
def tagText? (bound : Nat) (cs : List Char) : Option (List Char × List Char × List Char) :=
  match cs with
  | '!' :: '<' :: rest => do
    let (suffix, rest) ← uri? true bound rest
    match rest with
    | '>' :: rest => if suffix.isEmpty then none else return ([], untilZero suffix, rest)
    | _ => none
  | _ => do
    let (handle, rest) ← handle? false cs
    let (suffix, rest) ← uri? false bound rest
    if 2 ≤ handle.length && handle.getLast? == some '!' then
      if suffix.isEmpty then none else return (handle, untilZero suffix, rest)
    else
      let suffix := untilZero (handle.drop 1 ++ suffix)
      if suffix.isEmpty then return ([], ['!'], rest) else return (['!'], suffix, rest)

def tag? (bound : Nat) (l : Lexer) : Option Lexer := do
  let l := (← l.saveKey?).allowKey false
  let (handle, suffix, rest) ← tagText? bound l.cursor.rest
  guard (atEdge rest || l.inFlow && rest.head? == some ',')
  let c := l.cursor.skip (l.cursor.rest.length - rest.length)
  return { l.emit (.tag (String.ofList handle) (String.ofList suffix)) with cursor := c }

/-! ### Structure -/

def openFlow? (l : Lexer) (t : Token) : Option Lexer := do
  let l ← l.saveKey?
  return { l.mark 1 t with key := none, outer := l.key :: l.outer, keyAllowed := true }

def closeFlow? (l : Lexer) (t : Token) : Option Lexer := do
  let l ← l.dropKey?
  let l := match l.outer with
    | k :: ks => { l with key := k, outer := ks }
    | [] => l
  return (l.mark 1 t).allowKey false

def separator? (l : Lexer) : Option Lexer := do
  return ((← l.dropKey?).mark 1 .separator).allowKey true

/-- Where a block collection may begin or go on. -/
def inBlock? (l : Lexer) (t : Token) : Option Lexer :=
  if l.inFlow then some l
  else if l.keyAllowed then some (l.roll l.cursor.column l.count t)
  else none

def item? (l : Lexer) : Option Lexer := do
  let l ← l.inBlock? .sequenceStart
  return ((← l.dropKey?).mark 1 .item).allowKey true

def explicitKey? (l : Lexer) : Option Lexer := do
  let l ← l.inBlock? .mappingStart
  return ((← l.dropKey?).mark 1 .key).allowKey (!l.inFlow)

/-- A colon makes a key of what the pending key began at. -/
def value? (l : Lexer) : Option Lexer :=
  match l.key with
  | some k =>
    let l := { (l.insert k.place .key).roll k.column k.place .mappingStart with key := none }
    some ((l.mark 1 .value).allowKey false)
  | none => do
    let l ← l.inBlock? .mappingStart
    return (l.mark 1 .value).allowKey (!l.inFlow)

def documentMark? (l : Lexer) (t : Token) : Option Lexer := do
  let l ← (l.unroll (-1)).dropKey?
  return (l.mark 3 t).allowKey false

/-! ### Scalars -/

def blockScalar? (folded : Bool) (bound : Nat) (l : Lexer) : Option Lexer := do
  let l := (← l.dropKey?).allowKey true
  let (text, c) ← Scalar.block? folded l.indent bound l.cursor
  return { l.emit (.scalar (String.ofList text) false) with cursor := c }

def quotedScalar? (double : Bool) (bound : Nat) (l : Lexer) : Option Lexer := do
  let l := (← l.saveKey?).allowKey false
  let (text, c) ← Scalar.quoted? double bound l.cursor
  return { l.emit (.scalar (String.ofList text) false) with cursor := c }

def plainScalar? (bound : Nat) (l : Lexer) : Option Lexer := do
  let l ← l.saveKey?
  let (text, broken, c) ← Scalar.plain? l.inFlow (l.indent + 1).toNat bound l.cursor
  return { l.emit (.scalar (String.ofList text) true) with cursor := c, keyAllowed := broken }

/-- What a plain scalar cannot begin with. -/
def isIndicator (c : Char) : Bool := "-?:,[]\x7b\x7d#&*!|>'\"%@\x60".toList.contains c

/-- Whether a plain scalar begins with `c`, and `rest` behind it. -/
def beginsPlain (flow : Bool) (c : Char) (rest : List Char) : Bool :=
  !isIndicator c && !isSpace c || c == '-' && !rest.head?.any isSpace ||
    !flow && (c == '?' || c == ':') && !atEdge rest

/-- The next token, at a character that is no blank. -/
def token? (bound : Nat) (l : Lexer) (c : Char) (rest : List Char) : Option Lexer :=
  let start := l.cursor.column == 0
  if start && c == '%' then l.directive? bound
  else if l.cursor.atMark '-' then l.documentMark? .documentStart
  else if l.cursor.atMark '.' then l.documentMark? .documentEnd
  else if c == '[' then l.openFlow? .flowSequenceStart
  else if c == '{' then l.openFlow? .flowMappingStart
  else if c == ']' then l.closeFlow? .flowSequenceEnd
  else if c == '}' then l.closeFlow? .flowMappingEnd
  else if c == ',' then l.separator?
  else if c == '-' && atEdge rest then l.item?
  else if c == '?' && (l.inFlow || atEdge rest) then l.explicitKey?
  else if c == ':' && (l.inFlow || atEdge rest) then l.value?
  else if c == '*' then l.anchor? .alias
  else if c == '&' then l.anchor? .anchor
  else if c == '!' then l.tag? bound
  else if c == '|' && !l.inFlow then l.blockScalar? false bound
  else if c == '>' && !l.inFlow then l.blockScalar? true bound
  else if c == '\'' then l.quotedScalar? false bound
  else if c == '"' then l.quotedScalar? true bound
  else if beginsPlain l.inFlow c rest then l.plainScalar? bound
  else none

def finish? (l : Lexer) : Option (List Token) := do
  return (← (l.unroll (-1)).dropKey?).tokens.reverse

def run? (bound : Nat) : Nat → Lexer → Option (List Token)
  | 0, _ => none
  | steps + 1, l => do
    let l ← (l.skipToToken bound).dropStale?
    let l := l.unroll l.cursor.column
    match l.cursor.rest with
    | [] => l.finish?
    | c :: rest => run? bound steps (← l.token? bound c rest)

end Lexer

/-- All tokens of a text. Each takes at least one character. -/
def Token.ofText? (text : String) : Option (List Token) :=
  let cs := text.toList
  let bound := cs.length + 1
  if cs.all isAllowed then Lexer.run? bound bound { cursor := { rest := cs } } else none

end ApiClient.Yaml

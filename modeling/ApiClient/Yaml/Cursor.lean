/-! A place in a YAML text: what follows it, and how many octets, lines and columns precede it. -/

namespace ApiClient.Yaml

/-- The characters that a text may hold. -/
def isAllowed (c : Char) : Bool :=
  let n := c.toNat
  n == 9 || n == 10 || n == 13 || (0x20 ≤ n && n ≤ 0x7E) || n == 0x85 || (0xA0 ≤ n && n ≤ 0xD7FF) ||
    (0xE000 ≤ n && n ≤ 0xFFFD) || 0x10000 ≤ n

def isBreak (c : Char) : Bool :=
  let n := c.toNat
  n == 10 || n == 13 || n == 0x85 || n == 0x2028 || n == 0x2029

def isSpace (c : Char) : Bool := c == ' ' || c == '\t'

/-- What handles, anchors and directives are made of. -/
def isWordChar (c : Char) : Bool := c.isAlphanum || c == '-' || c == '_'

/-- Whether the head of a text is a blank, a break or the end. -/
def atEdge (cs : List Char) : Bool :=
  match cs with
  | [] => true
  | c :: _ => isSpace c || isBreak c

/-- How many octets a text takes up in UTF-8. -/
def octets : List Char → Nat
  | [] => 0
  | c :: cs => c.utf8Size + octets cs

structure Cursor where
  rest : List Char
  index : Nat := 0
  line : Nat := 0
  column : Nat := 0

namespace Cursor

/-- Past `n` characters, none of them a break. -/
def skip (c : Cursor) (n : Nat) : Cursor :=
  ⟨c.rest.drop n, c.index + octets (c.rest.take n), c.line, c.column + n⟩

/-- The characters at the head that `p` holds for, none of them a break. -/
def takeWhile (c : Cursor) (p : Char → Bool) : List Char × Cursor :=
  let taken := c.rest.takeWhile fun ch => p ch && !isBreak ch
  (taken, c.skip taken.length)

def skipWhile (c : Cursor) (p : Char → Bool) : Cursor := (c.takeWhile p).2

/-- Past a line break, with the character that it is read as. -/
def break? (c : Cursor) : Option (Char × Cursor) :=
  match c.rest with
  | '\r' :: '\n' :: rest => some ('\n', ⟨rest, c.index + 2, c.line + 1, 0⟩)
  | ch :: rest =>
    if isBreak ch then
      let read := if ch.toNat < 0x2028 then '\n' else ch
      some (read, ⟨rest, c.index + ch.utf8Size, c.line + 1, 0⟩)
    else none
  | [] => none

/-- Whether a line starts here with the three characters of a document mark. -/
def atMark (c : Cursor) (mark : Char) : Bool :=
  c.column == 0 &&
  match c.rest with
  | x :: y :: z :: rest => x == mark && y == mark && z == mark && atEdge rest
  | _ => false

def atDocumentMark (c : Cursor) : Bool := c.atMark '-' || c.atMark '.'

/-- Past the blanks and the comment of a line, to its end. -/
def lineEnd? (c : Cursor) : Option Cursor :=
  let c := c.skipWhile isSpace
  let c := if c.rest.head? == some '#' then c.skipWhile fun _ => true else c
  match c.rest with
  | [] => some c
  | _ => c.break?.map (·.2)

end Cursor

end ApiClient.Yaml

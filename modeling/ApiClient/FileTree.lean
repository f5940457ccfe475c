import ApiClient.Assoc
import ApiClient.Text.Pieces

/-! Files below a working directory. A directory exists where a file stands below it. -/

namespace ApiClient

structure FileTree where
  files : List (List String × ByteArray)

namespace FileTree

/-- What a path leads to; a missing file's directory exists. -/
inductive Spot where
  | directory (names : List String)
  | file (names : List String)
  | missing (names : List String)

def components (path : String) : List String :=
  (Text.pieces (· == '/') path.toList).map String.ofList

def ofList (files : List (String × ByteArray)) : FileTree :=
  ⟨files.map fun (path, content) => ((components path).filter fun c => c ≠ "" ∧ c ≠ ".", content)⟩

def spot (t : FileTree) (names : List String) : Spot :=
  if (t.files.lookup names).isSome then .file names
  else if names = [] ∨ t.files.any (fun (file, _) => names.isPrefixOf file) then .directory names
  else .missing names

/-- One step from a place. Only directories lead on, and nothing is known above the working
directory. No name is longer than 255 octets. -/
def step (t : FileTree) : Spot → String → Option Spot
  | .directory names, c =>
    if c = "" ∨ c = "." then some (.directory names)
    else if c = ".." then if names = [] then none else some (t.spot names.dropLast)
    else if 255 < c.utf8ByteSize then none
    else some (t.spot (names ++ [c]))
  | _, _ => none

/-- Where a path leads to, from the working directory. Paths are shorter than 4096 octets. -/
def walk (t : FileTree) (path : String) : Option Spot :=
  if path = "" ∨ path.toList.head? = some '/' ∨ 4096 ≤ path.utf8ByteSize then none
  else (components path).foldlM t.step (.directory [])

def read? (t : FileTree) (path : String) : Option ByteArray :=
  match t.walk path with
  | some (.file names) => t.files.lookup names
  | _ => none

/-- The text of a file that holds UTF-8. -/
def text? (t : FileTree) (path : String) : Option String := (t.read? path).bind String.fromUTF8?

def write? (t : FileTree) (path : String) (text : String) : Option FileTree :=
  match t.walk path with
  | some (.file names) => some ⟨Assoc.put names text.toUTF8 t.files⟩
  | some (.missing names) => some ⟨Assoc.put names text.toUTF8 t.files⟩
  | _ => none

end FileTree

end ApiClient

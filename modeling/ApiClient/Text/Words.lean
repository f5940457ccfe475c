import ApiClient.Text.Alphanumeric
import ApiClient.Text.Case
import ApiClient.Text.Pieces

/-! The words of an identifier, and their joining in camel case. A word ends at a character that is
not alphanumeric, between a lowercase and an uppercase letter, and before the last capital of a
series that a lowercase letter follows. -/

namespace ApiClient.Text

/-- The case of the last cased letter of the current word. -/
inductive LetterCase where
  | none | lower | upper
  deriving DecidableEq

/-- The words of the rest of a piece; `word` is the current one, last letter first. -/
def wordsFrom : LetterCase → List Char → List Char → List (List Char)
  | _, [], [] => []
  | _, word, [] => [word.reverse]
  | _, word, [c] => [(c :: word).reverse]
  | before, word, c :: next :: rest =>
    let now := if isLowercase c then .lower else if isUppercase c then .upper else before
    if now = .lower ∧ isUppercase next then
      (c :: word).reverse :: wordsFrom .none [] (next :: rest)
    else if before = .upper ∧ isUppercase c ∧ isLowercase next then
      word.reverse :: wordsFrom .none [c] (next :: rest)
    else wordsFrom now (c :: word) (next :: rest)

def words (cs : List Char) : List (List Char) :=
  (pieces (fun c => !isAlphanumeric c) cs).flatMap (wordsFrom .none [])

/-- A capital sigma at the end of a word has a small form of its own. -/
def lowerWord : List Char → List Char
  | [] => []
  | [c] => if c = 'Σ' then ['ς'] else lower c
  | c :: cs => lower c ++ lowerWord cs

def capitalWord : List Char → List Char
  | [] => []
  | c :: cs => upper c ++ lowerWord cs

def upperCamel (cs : List Char) : List Char := (words cs).flatMap capitalWord

def lowerCamel (cs : List Char) : List Char :=
  match words cs with
  | [] => []
  | w :: ws => lowerWord w ++ ws.flatMap capitalWord

end ApiClient.Text

/-! Cutting a text at separators, and joining the pieces again. -/

namespace ApiClient.Text

/-- The pieces between the characters that `sep` picks out. There is always at least one. -/
def pieces (sep : Char → Bool) : List Char → List (List Char)
  | [] => [[]]
  | c :: cs =>
    if sep c then [] :: pieces sep cs
    else match pieces sep cs with
      | [] => [[c]]
      | p :: ps => (c :: p) :: ps

theorem pieces_ne_nil (sep : Char → Bool) (cs : List Char) : pieces sep cs ≠ [] := by
  cases cs with
  | nil => simp [pieces]
  | cons c cs =>
    simp only [pieces]
    split
    · simp
    · split <;> simp

/-- The pieces one after the other, with `c` between neighbours. -/
def joined (c : Char) (ps : List (List Char)) : List Char := [c].intercalate ps

theorem joined_pieces (c : Char) (cs : List Char) : joined c (pieces (· == c) cs) = cs := by
  induction cs with
  | nil => rfl
  | cons a cs ih =>
    have hne := pieces_ne_nil (· == c) cs
    simp only [pieces]
    split
    · rename_i h
      cases hp : pieces (· == c) cs with
      | nil => exact absurd hp hne
      | cons p ps => simp_all [joined, List.intercalate]
    · cases hp : pieces (· == c) cs with
      | nil => exact absurd hp hne
      | cons p ps =>
        rw [hp] at ih
        subst ih
        cases ps <;> simp [joined, List.intercalate]

/-- What stands before and after the first place where `mark` is found. -/
def cut? (mark : List Char) : List Char → Option (List Char × List Char)
  | [] => if mark = [] then some ([], []) else none
  | c :: cs =>
    if mark.isPrefixOf (c :: cs) then some ([], (c :: cs).drop mark.length)
    else (cut? mark cs).map fun (before, after) => (c :: before, after)

/-- Every occurrence of the two characters `a b`, read from the left, becomes `c`. -/
def replacePair (a b c : Char) : List Char → List Char
  | [] => []
  | [x] => [x]
  | x :: y :: rest =>
    if x = a ∧ y = b then c :: replacePair a b c rest else x :: replacePair a b c (y :: rest)

end ApiClient.Text

/-! Tables as lists of pairs, in the order in which the keys were first put. -/

namespace ApiClient.Assoc

variable {κ α : Type} [BEq κ]

/-- A key that is present keeps its place and takes the new value; a new key comes last. -/
def put (key : κ) (value : α) : List (κ × α) → List (κ × α)
  | [] => [(key, value)]
  | (k, v) :: rest => if k == key then (k, value) :: rest else (k, v) :: put key value rest

/-- The table of pairs that were put one after the other. -/
def ofList (pairs : List (κ × α)) : List (κ × α) := pairs.foldl (fun t (k, v) => put k v t) []

@[simp] theorem put_nil (key : κ) (value : α) : put key value [] = [(key, value)] := rfl

theorem lookup_put_self [LawfulBEq κ] (key : κ) (value : α) (table : List (κ × α)) :
    (put key value table).lookup key = some value := by
  induction table with
  | nil => simp [put]
  | cons e table ih =>
    obtain ⟨k, v⟩ := e
    by_cases h : k = key
    · simp [put, h]
    · have h' : (key == k) = false := by simpa using fun e => h e.symm
      simp [put, h, List.lookup_cons, h', ih]

theorem lookup_put_of_ne [LawfulBEq κ] {key other : κ} (h : other ≠ key) (value : α)
    (table : List (κ × α)) : (put key value table).lookup other = table.lookup other := by
  have h' : (other == key) = false := by simpa using h
  induction table with
  | nil => simp [put, List.lookup_cons, h']
  | cons e table ih =>
    obtain ⟨k, v⟩ := e
    by_cases hk : k = key
    · subst hk; simp [put, List.lookup_cons, h']
    · simp [put, hk, List.lookup_cons, ih]

theorem mem_of_lookup [LawfulBEq κ] {key : κ} {value : α} {table : List (κ × α)}
    (h : table.lookup key = some value) : (key, value) ∈ table := by
  obtain ⟨before, after, rfl, -⟩ := List.lookup_eq_some_iff.mp h
  simp

end ApiClient.Assoc

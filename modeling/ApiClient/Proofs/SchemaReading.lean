import ApiClient.Document.Reading
import Mathlib.Data.List.Forall2

/-! Reading schemas. The levels of a tree are enough for all that is read inside of it, so that a schema is
read as a record whose inner schemas are read in the same way. -/

namespace ApiClient

open Format
open ApiClient.Tree (strict)

variable {α β : Type} {t u : Tree} {d : Nat} {names : List String} {r : Record Tree}

/-- Lists whose items are read alike are read alike. -/
theorem Option.mapM_congr {γ : Type} {f : α → Option γ} {g : β → Option γ} {as : List α} {bs : List β}
    (h : List.Forall₂ (fun a b => f a = g b) as bs) : as.mapM f = bs.mapM g := by
  induction h with
  | nil => rfl
  | cons hab _ ih => rw [List.mapM_cons, List.mapM_cons, hab, ih]

namespace Tree

/-! ### What is inside of a tree -/

/-- The tree is an item of a list, or what a key of a mapping stands for. -/
inductive Part (u : Tree) : Tree → Prop
  | item {items : List Tree} : u ∈ items → Part u (.seq items)
  | entry {k : Tree} {entries : List (Tree × Tree)} : (k, u) ∈ entries → Part u (.map entries)

theorem depth_pos (t : Tree) : 0 < t.depth := by cases t <;> simp [depth]

theorem depth_lt_of_mem_seq {items : List Tree} (h : u ∈ items) : u.depth < (seq items).depth := by
  induction items with
  | nil => cases h
  | cons t items ih =>
    rw [depth, depthList]
    rcases List.mem_cons.mp h with rfl | h
    · omega
    · have hrest := ih h
      rw [depth] at hrest
      omega

theorem depth_lt_of_mem_map {entries : List (Tree × Tree)} {k : Tree} (h : (k, u) ∈ entries) :
    u.depth < (map entries).depth := by
  induction entries with
  | nil => cases h
  | cons e entries ih =>
    obtain ⟨j, t⟩ := e
    rw [depth, depthEntries]
    rcases List.mem_cons.mp h with h | h
    · obtain ⟨-, rfl⟩ := Prod.mk.inj h
      omega
    · have hrest := ih h
      rw [depth] at hrest
      omega

theorem Part.depth_lt (h : Part u t) : u.depth < t.depth := by
  cases h with
  | item h => exact depth_lt_of_mem_seq h
  | entry h => exact depth_lt_of_mem_map h

theorem part_of_seq? {items : List Tree} (h : t.seq? = some items) (hu : u ∈ items) : Part u t := by
  cases t with
  | seq =>
    obtain rfl := Option.some.inj h
    exact .item hu
  | _ => cases h

theorem part_of_table? {entries : List (String × Tree)} (h : t.table? = some entries)
    {e : String × Tree} (he : e ∈ entries) : Part e.2 t := by
  cases t with
  | map pairs =>
    rw [table?] at h
    suffices hmem : ∃ k, (k, e.2) ∈ pairs from hmem.elim fun _ => .entry
    induction pairs generalizing entries with
    | nil =>
      cases h
      cases he
    | cons p pairs ih =>
      rw [List.mapM_cons] at h
      obtain ⟨f, hf, h⟩ := Option.bind_eq_some_iff.mp h
      obtain ⟨fs, hfs, h⟩ := Option.bind_eq_some_iff.mp h
      obtain rfl := Option.some.inj h
      rcases List.mem_cons.mp he with rfl | he
      · obtain ⟨k, -, rfl⟩ := Option.map_eq_some_iff.mp hf
        exact ⟨p.1, List.mem_cons_self⟩
      · exact (ih he hfs).imp fun _ hmem => List.mem_cons_of_mem _ hmem
  | _ => cases h

theorem mem_of_knownFields {entries : List (Tree × Tree)} {fields : List (String × Tree)}
    (h : knownFields names entries = some fields) {f : String × Tree} (hf : f ∈ fields) :
    ∃ k, (k, f.2) ∈ entries := by
  induction entries generalizing fields with
  | nil =>
    cases h
    cases hf
  | cons e entries ih =>
    obtain ⟨k, t⟩ := e
    obtain ⟨name, -, h⟩ := Option.bind_eq_some_iff.mp h
    obtain ⟨rest, hrest, h⟩ := Option.bind_eq_some_iff.mp h
    have hlater : f ∈ rest → ∃ k', (k', f.2) ∈ (k, t) :: entries := fun hf =>
      (ih hrest hf).imp fun _ hmem => List.mem_cons_of_mem _ hmem
    cases name with
    | none =>
      obtain rfl := Option.some.inj h
      exact hlater hf
    | some n =>
      dsimp only at h
      split_ifs at h
      obtain rfl := Option.some.inj h
      rcases List.mem_cons.mp hf with rfl | hf
      · exact ⟨k, List.mem_cons_self⟩
      · exact hlater hf

theorem part_of_record? (h : t.record? names = some r) {f : String × Tree} (hf : f ∈ r.given) :
    Part f.2 t := by
  cases t with
  | map entries =>
    obtain ⟨fields, hfields, rfl⟩ := Option.map_eq_some_iff.mp h
    obtain ⟨k, hk⟩ := mem_of_knownFields hfields hf
    exact .entry hk
  | seq items =>
    rw [record?] at h
    split_ifs at h
    obtain rfl := Option.some.inj h
    exact .item (List.of_mem_zip hf).2
  | _ => cases h

end Tree

/-! ### Readers that agree -/

/-- The two read alike all trees with fewer than `d` levels. -/
def AgreeBelow (d : Nat) (read read' : Tree → Option α) : Prop := ∀ u, u.depth < d → read u = read' u

namespace AgreeBelow

variable {read read' : Tree → Option α}

theorem listOf (h : AgreeBelow d read read') : AgreeBelow d (strict.listOf read) (strict.listOf read') := by
  intro u hu
  cases u with
  | seq items =>
    refine Option.mapM_congr (List.forall₂_same.mpr fun t ht => ?_)
    exact h t (Nat.lt_trans (Tree.Part.item ht).depth_lt hu)
  | _ => rfl

theorem tableOf (h : AgreeBelow d read read') :
    AgreeBelow d (strict.tableOf read) (strict.tableOf read') := by
  intro u hu
  have hpairs : ∀ es, u.table? = some es → es.mapM (pairOf read) = es.mapM (pairOf read') := by
    intro es hes
    refine Option.mapM_congr (List.forall₂_same.mpr fun e he => ?_)
    rw [pairOf, pairOf, h e.2 (Nat.lt_trans (Tree.part_of_table? hes he).depth_lt hu)]
  show (u.table?.bind fun es => (es.mapM (pairOf read)).bind fun ps => some (Assoc.ofList ps)) =
    u.table?.bind fun es => (es.mapM (pairOf read')).bind fun ps => some (Assoc.ofList ps)
  exact Option.bind_congr fun es hes => by rw [hpairs es hes]

theorem additional (h : AgreeBelow d read read') :
    AgreeBelow d (Additional.ofTree? read) (Additional.ofTree? read') := by
  intro u hu
  cases u with
  | bool b => rfl
  | _ => exact congrArg (Option.map Additional.values) (h _ hu)

/-- Where the fields of a record have fewer levels, a field is read alike. -/
theorem defaulted (h : AgreeBelow d read read') (hr : ∀ f ∈ r.given, f.2.depth < d) (name : String)
    (default : α) : defaulted r name default read = Format.defaulted r name default read' := by
  rw [Format.defaulted, Format.defaulted]
  cases hlookup : r.given.lookup name with
  | none => rfl
  | some v => exact h v (hr _ (Assoc.mem_of_lookup hlookup))

theorem optionally (h : AgreeBelow d read read') (hr : ∀ f ∈ r.given, f.2.depth < d) (name : String) :
    strict.optionally r name read = strict.optionally r name read' := by
  rw [Format.optionally, Format.optionally]
  cases hlookup : r.given.lookup name with
  | none => rfl
  | some v =>
    have hread := h v (hr _ (Assoc.mem_of_lookup hlookup))
    cases v with
    | null => rfl
    | _ => exact congrArg (Option.bind · fun a => some (some a)) hread

end AgreeBelow

/-- The reference that stands in the place of a value. -/
def Tree.referred? : Tree → Option String
  | .map entries => do
    let fields ← Tree.knownFields ["$ref"] entries
    fields.lookup "$ref" >>= Tree.str?
  | _ => none

theorem RefOr.ofTree?_eq (read : Tree → Option α) (t : Tree) : RefOr.ofTree? read t =
    match t.referred? with
    | some r => some (.ref r)
    | none => (read t).map .inline := rfl

/-- What is no reference is read as a value. -/
theorem RefOr.ofTree?_congr {read read' : Tree → Option α} (href : t.referred? = u.referred?)
    (h : t.referred? = none → read t = read' u) : RefOr.ofTree? read t = RefOr.ofTree? read' u := by
  rw [RefOr.ofTree?_eq, RefOr.ofTree?_eq, ← href]
  cases hr : t.referred? with
  | some r => rfl
  | none => exact congrArg (Option.map RefOr.inline) (h hr)

namespace Schema

theorem ofTree?_congr {inner inner' : Tree → Option (RefOr Schema)}
    (h : AgreeBelow t.depth inner inner') : ofTree? inner t = ofTree? inner' t := by
  show (t.record? fieldNames).bind _ = (t.record? fieldNames).bind _
  refine Option.bind_congr fun r hr => ?_
  have hdepth : ∀ f ∈ r.given, f.2.depth < t.depth := fun f hf => (Tree.part_of_record? hr hf).depth_lt
  simp only [h.tableOf.defaulted hdepth, h.listOf.defaulted hdepth, h.optionally hdepth,
    h.additional.optionally hdepth]

theorem ofLevels?_eq {n m : Nat} (hn : t.depth ≤ n) (hm : t.depth ≤ m) :
    ofLevels? n t = ofLevels? m t := by
  induction n generalizing m t with
  | zero => exact absurd (Tree.depth_pos t) (by omega)
  | succ n ih =>
    cases m with
    | zero => exact absurd (Tree.depth_pos t) (by omega)
    | succ m =>
      have hagree : AgreeBelow t.depth (ofLevels? n) (ofLevels? m) := fun u hu =>
        ih (by omega) (by omega)
      exact RefOr.ofTree?_congr rfl fun _ => ofTree?_congr hagree

/-- A schema is a reference, or a record whose inner schemas are read as schemas again. -/
theorem read?_eq (t : Tree) : read? t = RefOr.ofTree? (ofTree? read?) t := by
  have hdepth := Tree.depth_pos t
  have hagree : AgreeBelow t.depth (ofLevels? (t.depth - 1)) read? := fun u hu =>
    ofLevels?_eq (by omega) (Nat.le_refl _)
  calc read? t = ofLevels? (t.depth - 1 + 1) t := ofLevels?_eq (Nat.le_refl _) (by omega)
    _ = RefOr.ofTree? (ofTree? (ofLevels? (t.depth - 1))) t := rfl
    _ = RefOr.ofTree? (ofTree? read?) t := RefOr.ofTree?_congr rfl fun _ => ofTree?_congr hagree

end Schema

end ApiClient

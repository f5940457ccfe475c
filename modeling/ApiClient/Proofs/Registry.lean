import ApiClient.Registry
import Mathlib

/-! What the registry keeps. A name that is handed out was free, a shape that is stored stays under its
name, and the search along the numbered variants of a name never comes to an end without one. -/

namespace ApiClient.Registry

variable {g : Registry} {name : String} {d : Definition}

theorem numbered_injective (name : String) : Function.Injective (numbered name) := by
  have hne : ∀ k : Nat, name ≠ name ++ toString k := by
    intro k h
    have hlen := congrArg (fun s => s.toList.length) h
    have hpos : 0 < (Nat.toDigits 10 k).length := Nat.length_toDigits_pos
    simp only [String.toList_append, List.length_append, Nat.toString_eq_ofList_toDigits,
      String.toList_ofList] at hlen
    omega
  intro i j h
  simp only [numbered] at h
  split_ifs at h with hi hj hj
  · omega
  · exact absurd h (hne j)
  · exact absurd h.symm (hne i)
  · exact Nat.repr_injective ((String.append_right_inj name).mp h)

theorem candidates_nodup (g : Registry) (name : String) : (g.candidates name).Nodup := by
  refine List.nodup_range.map fun i j h => ?_
  have hij := numbered_injective name h
  omega

theorem get?_eq_none_iff : g.get? name = none ↔ name ∉ g.names := by
  simp only [get?, names, List.lookup_eq_none_iff, List.mem_map, not_exists, not_and, bne_iff_ne]
  exact ⟨fun h e he hn => h e he hn.symm, fun h e he hn => h e he hn.symm⟩

theorem vacant_iff : g.vacant name = true ↔ g.get? name = none ∧ name ∉ g.reserved := by
  simp [vacant, contains]

/-- There is one candidate more than there are names in use. -/
theorem exists_vacant (g : Registry) (name : String) : ∃ c ∈ g.candidates name, g.vacant c := by
  by_contra hc
  push Not at hc
  have hsub : g.candidates name ⊆ g.names ++ g.reserved := by
    intro c hm
    have hv := mt vacant_iff.mpr (hc c hm)
    rw [get?_eq_none_iff] at hv
    simp only [List.mem_append]
    tauto
  have hle := ((candidates_nodup g name).subperm hsub).length_le
  simp only [candidates, names, List.length_map, List.length_range, List.length_append] at hle
  omega

/-! ### The search along the variants of a name -/

/-- Of all the variants of the name, the one numbered `k` is the first that passes. -/
structure FirstVariant (test : String → Bool) (name : String) (k : Nat) : Prop where
  pos : 1 ≤ k
  passes : test (numbered name k) = true
  least : ∀ i, 1 ≤ i → i < k → test (numbered name i) = false

/-- The variant a search stops at. It is free at the latest when all names in use have been passed. -/
theorem find?_candidates (g : Registry) (name : String) (test : String → Bool)
    (hvacant : ∀ c, g.vacant c = true → test c = true) :
    ∃ k, FirstVariant test name k ∧ k ≤ g.entries.length + g.reserved.length + 1 ∧
      (g.candidates name).find? test = some (numbered name k) := by
  obtain ⟨v, hv, hfree⟩ := exists_vacant g name
  have hsome : ((g.candidates name).find? test).isSome :=
    List.find?_isSome.mpr ⟨v, hv, hvacant v hfree⟩
  obtain ⟨c, hc⟩ := Option.isSome_iff_exists.mp hsome
  have hrange := hc
  rw [candidates, List.find?_map, Option.map_eq_some_iff] at hrange
  obtain ⟨i, hi, rfl⟩ := hrange
  obtain ⟨hpasses, hbound, hbefore⟩ := List.find?_range_eq_some.mp hi
  have hlt := List.mem_range.mp hbound
  refine ⟨i + 1, ⟨by omega, hpasses, fun j hj hji => ?_⟩, by omega, hc⟩
  have hj' := hbefore (j - 1) (by omega)
  rw [Function.comp_apply, Nat.sub_add_cancel hj] at hj'
  simpa using hj'

/-! ### The three operations -/

theorem reserve_first (g : Registry) (name : String) :
    ∃ k, FirstVariant g.vacant name k ∧ k ≤ g.entries.length + g.reserved.length + 1 ∧
      g.reserve name = (numbered name k, ⟨g.entries, numbered name k :: g.reserved⟩) := by
  obtain ⟨k, hk, hbound, hfind⟩ := find?_candidates g name g.vacant fun _ h => h
  exact ⟨k, hk, hbound, by simp [reserve, hfind]⟩

theorem register_first (g : Registry) (name : String) (d : Definition) :
    ∃ k, FirstVariant (fun c => g.holds c d || g.vacant c) name k ∧
      k ≤ g.entries.length + g.reserved.length + 1 ∧
      g.register name d = (numbered name k, if g.holds (numbered name k) d then g
        else ⟨insertEntry (numbered name k) d g.entries, g.reserved⟩) := by
  obtain ⟨k, hk, hbound, hfind⟩ :=
    find?_candidates g name (fun c => g.holds c d || g.vacant c) fun _ h => by simp [h]
  exact ⟨k, hk, hbound, by simp only [register, hfind]⟩

/-- All that a reservation does. -/
theorem reserve_cases (g : Registry) (name : String) :
    ∃ k, 1 ≤ k ∧ g.vacant (numbered name k) = true ∧
      g.reserve name = (numbered name k, ⟨g.entries, numbered name k :: g.reserved⟩) := by
  obtain ⟨k, hk, -, hr⟩ := reserve_first g name
  exact ⟨k, hk.pos, hk.passes, hr⟩

/-- All that a registration does. -/
theorem register_cases (g : Registry) (name : String) (d : Definition) :
    ∃ k, 1 ≤ k ∧
      (g.holds (numbered name k) d = true ∧ g.register name d = (numbered name k, g) ∨
        g.vacant (numbered name k) = true ∧
          g.register name d =
            (numbered name k, ⟨insertEntry (numbered name k) d g.entries, g.reserved⟩)) := by
  obtain ⟨k, hk, -, hr⟩ := register_first g name d
  refine ⟨k, hk.pos, ?_⟩
  cases hh : g.holds (numbered name k) d with
  | true => exact .inl ⟨rfl, by simp [hr, hh]⟩
  | false => exact .inr ⟨by simpa [hh] using hk.passes, by simp [hr, hh]⟩

/-- The name is the one that was wanted, or a numbered variant of it. -/
def IsNumbered (wanted name : String) : Prop := ∃ k, 1 ≤ k ∧ name = numbered wanted k

theorem register_isNumbered (g : Registry) (name : String) (d : Definition) :
    IsNumbered name (g.register name d).1 := by
  obtain ⟨k, hk, ⟨-, hr⟩ | ⟨-, hr⟩⟩ := register_cases g name d
  · exact ⟨k, hk, congrArg Prod.fst hr⟩
  · exact ⟨k, hk, congrArg Prod.fst hr⟩

theorem lookup_insertEntry_self (name : String) (d : Definition)
    (es : List (String × Definition)) : (insertEntry name d es).lookup name = some d := by
  induction es with
  | nil => simp [insertEntry]
  | cons e es ih =>
    simp only [insertEntry]
    split_ifs with h₁ h₂
    · simp
    · simp
    · rw [List.lookup_cons, beq_eq_false_iff_ne.mpr h₁]
      exact ih

theorem lookup_insertEntry_of_ne {other : String} (h : other ≠ name) (d : Definition)
    (es : List (String × Definition)) :
    (insertEntry name d es).lookup other = es.lookup other := by
  have hb : (other == name) = false := beq_eq_false_iff_ne.mpr h
  induction es with
  | nil => simp [insertEntry, h]
  | cons e es ih =>
    obtain ⟨n, e⟩ := e
    simp only [insertEntry]
    split_ifs with h₁ h₂
    · subst h₁
      simp [List.lookup_cons, hb]
    · simp [List.lookup_cons, hb]
    · simp [List.lookup_cons, ih]

theorem mem_insertEntry {x : String × Definition} {es : List (String × Definition)}
    (h : x ∈ insertEntry name d es) : x = (name, d) ∨ x ∈ es := by
  induction es with
  | nil => simpa [insertEntry] using h
  | cons e es ih =>
    simp only [insertEntry] at h
    split_ifs at h with h₁ h₂
    · rcases List.mem_cons.mp h with rfl | h
      · exact .inl rfl
      · exact .inr (List.mem_cons_of_mem _ h)
    · exact List.mem_cons.mp h
    · rcases List.mem_cons.mp h with rfl | h
      · exact .inr List.mem_cons_self
      · exact (ih h).imp id (List.mem_cons_of_mem _)

theorem pairwise_insertEntry {es : List (String × Definition)}
    (h : es.Pairwise fun a b => a.1 < b.1) :
    (insertEntry name d es).Pairwise fun a b => a.1 < b.1 := by
  induction es with
  | nil => simp [insertEntry]
  | cons e es ih =>
    obtain ⟨hhead, htail⟩ := List.pairwise_cons.mp h
    simp only [insertEntry]
    split_ifs with h₁ h₂
    · exact List.pairwise_cons.mpr ⟨fun x hx => h₁ ▸ hhead x hx, htail⟩
    · refine List.pairwise_cons.mpr ⟨fun x hx => ?_, h⟩
      rcases List.mem_cons.mp hx with rfl | hx
      · exact h₂
      · exact h₂.trans (hhead x hx)
    · refine List.pairwise_cons.mpr ⟨fun x hx => ?_, ih htail⟩
      rcases mem_insertEntry hx with rfl | hx
      · exact lt_of_le_of_ne (not_lt.mp h₂) (Ne.symm h₁)
      · exact hhead x hx

/-! ### Registries in order -/

/-- Every name stands once and in its place, and a name that is promised has no shape yet. -/
structure Ordered (g : Registry) : Prop where
  sorted : g.entries.Pairwise fun a b => a.1 < b.1
  unfilled : ∀ n ∈ g.reserved, g.get? n = none
  nodup : g.reserved.Nodup

theorem Ordered.empty : Ordered .empty := ⟨.nil, by simp [Registry.empty], .nil⟩

theorem Ordered.names_nodup (hg : g.Ordered) : g.names.Nodup :=
  List.pairwise_map.mpr (hg.sorted.imp fun h => h.ne)

theorem mem_of_get? (h : g.get? name = some d) : (name, d) ∈ g.entries := by
  obtain ⟨before, after, he, -⟩ := List.lookup_eq_some_iff.mp h
  simp [he]

theorem Ordered.get?_of_mem (hg : g.Ordered) (h : (name, d) ∈ g.entries) :
    g.get? name = some d := by
  obtain ⟨before, after, he⟩ := List.append_of_mem h
  have hs := hg.sorted
  rw [he, List.pairwise_append] at hs
  refine List.lookup_eq_some_iff.mpr ⟨before, after, he, fun e hm => ?_⟩
  have hlt : e.1 < name := hs.2.2 e hm _ List.mem_cons_self
  exact bne_iff_ne.mpr hlt.ne'

/-- What is stored under a name in `g` is stored there in `h`. -/
def Kept (g h : Registry) : Prop := ∀ n d, g.get? n = some d → h.get? n = some d

theorem Kept.refl (g : Registry) : g.Kept g := fun _ _ h => h

theorem Kept.trans {h k : Registry} (h₁ : g.Kept h) (h₂ : h.Kept k) : g.Kept k :=
  fun n d hd => h₂ n d (h₁ n d hd)

theorem kept_insert (hv : g.get? name = none) (d : Definition) (names : List String) :
    g.Kept ⟨insertEntry name d g.entries, names⟩ := by
  intro n e he
  have hne : n ≠ name := by
    rintro rfl
    simp [hv] at he
  exact (lookup_insertEntry_of_ne hne d g.entries).trans he

theorem get?_insert_of_ne {other : String} (h : other ≠ name) (d : Definition)
    (names : List String) :
    get? ⟨insertEntry name d g.entries, names⟩ other = g.get? other :=
  lookup_insertEntry_of_ne h d g.entries

@[simp] theorem get?_fill_self (g : Registry) (name : String) (d : Definition) :
    (g.fill name d).get? name = some d := lookup_insertEntry_self name d g.entries

theorem kept_fill (h : g.get? name = none) (d : Definition) : g.Kept (g.fill name d) :=
  kept_insert h d _

theorem Ordered.reserve (hg : g.Ordered) (name : String) : (g.reserve name).2.Ordered := by
  obtain ⟨k, -, hv, hr⟩ := reserve_cases g name
  obtain ⟨hnone, hfree⟩ := vacant_iff.mp hv
  rw [hr]
  refine ⟨hg.sorted, fun n hn => ?_, List.nodup_cons.mpr ⟨hfree, hg.nodup⟩⟩
  rcases List.mem_cons.mp hn with rfl | hn
  · exact hnone
  · exact hg.unfilled n hn

theorem Ordered.register (hg : g.Ordered) (name : String) (d : Definition) :
    (g.register name d).2.Ordered := by
  obtain ⟨k, -, ⟨-, hr⟩ | ⟨hv, hr⟩⟩ := register_cases g name d
  · rw [hr]
    exact hg
  · rw [hr]
    refine ⟨pairwise_insertEntry hg.sorted, fun n hn => ?_, hg.nodup⟩
    have hne : n ≠ numbered name k := fun h => (vacant_iff.mp hv).2 (h ▸ hn)
    exact (get?_insert_of_ne hne d _).trans (hg.unfilled n hn)

theorem Ordered.fill (hg : g.Ordered) (name : String) (d : Definition) :
    (g.fill name d).Ordered := by
  refine ⟨pairwise_insertEntry hg.sorted, fun n hn => ?_, hg.nodup.erase name⟩
  obtain ⟨hne, hn⟩ := hg.nodup.mem_erase_iff.mp hn
  exact (get?_insert_of_ne hne d _).trans (hg.unfilled n hn)

theorem kept_register (g : Registry) (name : String) (d : Definition) :
    g.Kept (g.register name d).2 := by
  obtain ⟨k, -, ⟨-, hr⟩ | ⟨hv, hr⟩⟩ := register_cases g name d
  · rw [hr]
    exact .refl g
  · rw [hr]
    exact kept_insert (vacant_iff.mp hv).1 d _

@[simp] theorem reserved_register (g : Registry) (name : String) (d : Definition) :
    (g.register name d).2.reserved = g.reserved := by
  obtain ⟨k, -, ⟨-, hr⟩ | ⟨-, hr⟩⟩ := register_cases g name d <;> rw [hr]

/-- A registration adds at most the shape that it is asked for. -/
theorem get?_register {n : String} {e : Definition} (name : String) (d : Definition)
    (h : (g.register name d).2.get? n = some e) : g.get? n = some e ∨ e = d := by
  obtain ⟨k, -, ⟨-, hr⟩ | ⟨-, hr⟩⟩ := register_cases g name d
  · rw [hr] at h
    exact .inl h
  · rw [hr] at h
    by_cases hn : n = numbered name k
    · subst hn
      exact .inr (Option.some.inj (h.symm.trans (lookup_insertEntry_self _ d _)))
    · exact .inl ((get?_insert_of_ne hn d _).symm.trans h)

/-! ### Enums -/

/-- The name stands for the enum of these values, as far as the equality of values can tell. -/
def HoldsEnum (g : Registry) (name : String) (values : List Json) : Prop :=
  ∃ ws, g.get? name = some (.enum ws) ∧ (ws = values ∨ Json.sameItems ws values = true)

theorem HoldsEnum.kept {h : Registry} {vs : List Json} (hk : g.Kept h)
    (hn : g.HoldsEnum name vs) : h.HoldsEnum name vs := by
  obtain ⟨ws, hws, heq⟩ := hn
  exact ⟨ws, hk _ _ hws, heq⟩

theorem holds_enum {vs : List Json} (h : g.holds name (.enum vs) = true) :
    g.HoldsEnum name vs := by
  simp only [holds] at h
  split at h
  · rename_i e he
    rcases e with fs | ws | t
    · simp [Definition.same] at h
    · exact ⟨ws, he, .inr h⟩
    · simp [Definition.same] at h
  · simp at h

theorem register_holdsEnum (g : Registry) (name : String) (vs : List Json) :
    (g.register name (.enum vs)).2.HoldsEnum (g.register name (.enum vs)).1 vs := by
  obtain ⟨k, -, ⟨hh, hr⟩ | ⟨-, hr⟩⟩ := register_cases g name (.enum vs)
  · rw [hr]
    exact holds_enum hh
  · rw [hr]
    exact ⟨vs, lookup_insertEntry_self _ _ _, .inl rfl⟩

end ApiClient.Registry

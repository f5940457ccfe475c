import ApiClient.Json.Value
import Mathlib.Data.List.Perm.Subperm

/-! Equality of JSON values. On values in which no object has a key twice, which all values that are read
are, it is an equivalence: the order of the keys and the sign of a zero are all that it forgets. -/

namespace ApiClient

theorem Binary64.same_trans {x y z : Binary64} (h : x.same y = true) (h' : y.same z = true) :
    x.same z = true := by
  simp only [same, Bool.or_eq_true, Bool.and_eq_true, beq_iff_eq] at h h' ⊢
  rcases h with rfl | ⟨hx, hy⟩
  · exact h'
  · rcases h' with rfl | ⟨-, hz⟩
    · exact .inr ⟨hx, hy⟩
    · exact .inr ⟨hx, hz⟩

namespace Assoc

variable {κ α : Type} [BEq κ] [LawfulBEq κ] {k j : κ} {table : List (κ × α)}

theorem mem_keys_put (a : α) :
    j ∈ (put k a table).map (·.1) ↔ j = k ∨ j ∈ table.map (·.1) := by
  induction table with
  | nil => simp
  | cons e table ih =>
    rw [put]
    split <;> rename_i hk
    · simp [beq_iff_eq.mp hk]
    · rw [List.map_cons, List.mem_cons, ih, List.map_cons, List.mem_cons]
      exact or_left_comm

theorem nodup_put (k : κ) (a : α) (h : (table.map (·.1)).Nodup) :
    ((put k a table).map (·.1)).Nodup := by
  induction table with
  | nil => simp
  | cons e table ih =>
    obtain ⟨j, b⟩ := e
    obtain ⟨hnot, hrest⟩ := List.nodup_cons.mp h
    rw [put]
    split <;> rename_i hk
    · obtain rfl := beq_iff_eq.mp hk
      exact List.nodup_cons.mpr ⟨hnot, hrest⟩
    · refine List.nodup_cons.mpr ⟨fun hmem => ?_, ih hrest⟩
      rcases (mem_keys_put a).mp hmem with rfl | hmem
      · exact hk (beq_self_eq_true _)
      · exact hnot hmem

theorem lookup_of_mem {a : α} (hnodup : (table.map (·.1)).Nodup) (h : (k, a) ∈ table) :
    table.lookup k = some a := by
  obtain ⟨before, after, rfl⟩ := List.append_of_mem h
  refine List.lookup_eq_some_iff.mpr ⟨before, after, rfl, fun e he => ?_⟩
  rw [List.map_append, List.nodup_append] at hnodup
  exact bne_iff_ne.mpr (hnodup.2.2 e.1 (List.mem_map_of_mem he) k (by simp)).symm

end Assoc

namespace Json

mutual

/-- No object in the value has a key twice. -/
def Distinct : Json → Prop
  | .arr items => AllDistinct items
  | .obj fs => (fs.map (·.1)).Nodup ∧ FieldsDistinct fs
  | _ => True

def AllDistinct : List Json → Prop
  | [] => True
  | v :: vs => v.Distinct ∧ AllDistinct vs

def FieldsDistinct : List (String × Json) → Prop
  | [] => True
  | (_, v) :: fs => v.Distinct ∧ FieldsDistinct fs

end

variable {a b c : Json} {as bs cs : List Json} {fs gs : List (String × Json)}

theorem fieldsDistinct_iff : FieldsDistinct fs ↔ ∀ f ∈ fs, f.2.Distinct := by
  induction fs with
  | nil => simp [FieldsDistinct]
  | cons f fs ih => simp [FieldsDistinct, ih]

theorem sameFields_iff :
    sameFields fs gs = true ↔ ∀ f ∈ fs, ∃ b, gs.lookup f.1 = some b ∧ f.2.same b = true := by
  induction fs with
  | nil => simp [sameFields]
  | cons f fs ih =>
    obtain ⟨k, a⟩ := f
    rw [sameFields, Bool.and_eq_true, ih, List.forall_mem_cons]
    refine and_congr_left fun _ => ?_
    cases gs.lookup k <;> simp

theorem same_obj_iff :
    (Json.obj fs).same (.obj gs) = true ↔ fs.length = gs.length ∧
      ∀ f ∈ fs, ∃ b, gs.lookup f.1 = some b ∧ f.2.same b = true := by
  rw [same, Bool.and_eq_true, sameFields_iff, beq_iff_eq]

/-! ### An equivalence -/

mutual

theorem same_refl : (a : Json) → a.Distinct → a.same a = true
  | .null, _ => rfl
  | .bool b, _ => by simp [same]
  | .int n, _ => by simp [same]
  | .float x, _ => x.same_refl
  | .str s, _ => by simp [same]
  | .arr items, h => sameItems_refl items h
  | .obj fs, h => same_obj_iff.mpr ⟨rfl, fun f hf =>
    ⟨f.2, Assoc.lookup_of_mem h.1 hf, sameFields_refl fs h.2 f hf⟩⟩

theorem sameItems_refl : (as : List Json) → AllDistinct as → sameItems as as = true
  | [], _ => rfl
  | a :: as, h => by
    rw [sameItems, same_refl a h.1, sameItems_refl as h.2]
    rfl

theorem sameFields_refl : (fs : List (String × Json)) → FieldsDistinct fs →
    ∀ f ∈ fs, f.2.same f.2 = true
  | [], _, _, hf => by cases hf
  | (_, a) :: fs, h, f, hf => by
    rcases List.mem_cons.mp hf with rfl | hf
    · exact same_refl a h.1
    · exact sameFields_refl fs h.2 f hf

end

mutual

theorem same_trans : {a b c : Json} → a.same b = true → b.same c = true → a.same c = true
  | .null, .null, _, _, h' => h'
  | .bool _, .bool _, _, h, h' => by rwa [beq_iff_eq.mp h]
  | .int _, .int _, _, h, h' => by rwa [beq_iff_eq.mp h]
  | .str _, .str _, _, h, h' => by rwa [beq_iff_eq.mp h]
  | .float _, .float _, .float _, h, h' => Binary64.same_trans h h'
  | .arr _, .arr _, .arr _, h, h' => sameItems_trans h h'
  | .obj fs, .obj gs, .obj hs, h, h' => by
    obtain ⟨hlength, hfields⟩ := same_obj_iff.mp h
    obtain ⟨hlength', hfields'⟩ := same_obj_iff.mp h'
    exact same_obj_iff.mpr ⟨hlength.trans hlength', sameFields_trans hfields hfields'⟩

theorem sameItems_trans : {as bs cs : List Json} → sameItems as bs = true →
    sameItems bs cs = true → sameItems as cs = true
  | [], [], _, _, h' => h'
  | a :: as, b :: bs, c :: cs, h, h' => by
    simp only [sameItems, Bool.and_eq_true] at h h' ⊢
    exact ⟨same_trans h.1 h'.1, sameItems_trans h.2 h'.2⟩

theorem sameFields_trans : {fs gs hs : List (String × Json)} →
    (∀ f ∈ fs, ∃ b, gs.lookup f.1 = some b ∧ f.2.same b = true) →
    (∀ g ∈ gs, ∃ c, hs.lookup g.1 = some c ∧ g.2.same c = true) →
    ∀ f ∈ fs, ∃ c, hs.lookup f.1 = some c ∧ f.2.same c = true
  | [], _, _, _, _, _, hf => by cases hf
  | (k, a) :: fs, gs, hs, h, h', f, hf => by
    rcases List.mem_cons.mp hf with rfl | hf
    · obtain ⟨b, hb, hab⟩ := h _ List.mem_cons_self
      obtain ⟨c, hc, hbc⟩ := h' _ (Assoc.mem_of_lookup hb)
      exact ⟨c, hc, same_trans hab hbc⟩
    · exact sameFields_trans (fun f hf => h f (List.mem_cons_of_mem _ hf)) h' f hf

end

/-- Fields that are all found among as many others are all that there are. -/
theorem keys_perm (hnodup : (fs.map (·.1)).Nodup) (hlength : fs.length = gs.length)
    (h : ∀ f ∈ fs, ∃ b, gs.lookup f.1 = some b ∧ f.2.same b = true) :
    (fs.map (·.1)).Perm (gs.map (·.1)) := by
  have hsub : fs.map (·.1) ⊆ gs.map (·.1) := by
    intro k hk
    obtain ⟨f, hf, rfl⟩ := List.mem_map.mp hk
    obtain ⟨b, hb, -⟩ := h f hf
    exact List.mem_map.mpr ⟨(f.1, b), Assoc.mem_of_lookup hb, rfl⟩
  exact (hnodup.subperm hsub).perm_of_length_le (by simp [hlength])

mutual

/-- What is equal to a value without repeated keys has none either, and the equality holds in the other
direction. -/
theorem Distinct.symm : {a b : Json} → a.Distinct → a.same b = true → b.Distinct ∧ b.same a = true
  | .null, .null, _, _ => ⟨trivial, rfl⟩
  | .bool _, .bool _, _, h => ⟨trivial, by rw [beq_iff_eq.mp h]; simp [same]⟩
  | .int _, .int _, _, h => ⟨trivial, by rw [beq_iff_eq.mp h]; simp [same]⟩
  | .str _, .str _, _, h => ⟨trivial, by rw [beq_iff_eq.mp h]; simp [same]⟩
  | .float _, .float _, _, h => ⟨trivial, (Binary64.same_comm _ _).trans h⟩
  | .arr _, .arr _, ha, h => AllDistinct.symm ha h
  | .obj fs, .obj gs, ha, h => by
    obtain ⟨hlength, hfields⟩ := same_obj_iff.mp h
    have hkeys := keys_perm ha.1 hlength hfields
    have hnodup := hkeys.nodup_iff.mp ha.1
    -- Every one of the others is the partner of a field, so it is compared with that field.
    have hback : ∀ g ∈ gs, g.2.Distinct ∧ ∃ a, fs.lookup g.1 = some a ∧ g.2.same a = true := by
      intro g hg
      obtain ⟨f, hf, hkey⟩ := List.mem_map.mp (hkeys.mem_iff.mpr (List.mem_map_of_mem hg))
      obtain ⟨b, hb, hsame⟩ := hfields f hf
      have hlookup : gs.lookup f.1 = some g.2 := hkey ▸ Assoc.lookup_of_mem hnodup hg
      obtain rfl : b = g.2 := Option.some.inj (hb.symm.trans hlookup)
      obtain ⟨hdistinct, hsame⟩ := FieldsDistinct.symm ha.2 f hf hsame
      exact ⟨hdistinct, f.2, hkey ▸ Assoc.lookup_of_mem ha.1 hf, hsame⟩
    exact ⟨⟨hnodup, fieldsDistinct_iff.mpr fun g hg => (hback g hg).1⟩,
      same_obj_iff.mpr ⟨hlength.symm, fun g hg => (hback g hg).2⟩⟩

theorem AllDistinct.symm : {as bs : List Json} → AllDistinct as → sameItems as bs = true →
    AllDistinct bs ∧ sameItems bs as = true
  | [], [], _, _ => ⟨trivial, rfl⟩
  | a :: as, b :: bs, ha, h => by
    simp only [sameItems, Bool.and_eq_true] at h ⊢
    obtain ⟨hb, hsame⟩ := Distinct.symm ha.1 h.1
    obtain ⟨hbs, hsames⟩ := AllDistinct.symm ha.2 h.2
    exact ⟨⟨hb, hbs⟩, hsame, hsames⟩

theorem FieldsDistinct.symm : {fs : List (String × Json)} → FieldsDistinct fs → ∀ f ∈ fs,
    {b : Json} → f.2.same b = true → b.Distinct ∧ b.same f.2 = true
  | [], _, _, hf, _, _ => by cases hf
  | (_, a) :: fs, hfs, f, hf, b, h => by
    rcases List.mem_cons.mp hf with rfl | hf
    · exact Distinct.symm hfs.1 h
    · exact FieldsDistinct.symm hfs.2 f hf h

end

/-- Values without repeated keys are equal when both are equal to the same ones, whatever keys these
have. -/
theorem AllDistinct.sameItems_of_common (has : AllDistinct as) (hbs : AllDistinct bs)
    (h : as = cs ∨ sameItems as cs = true) (h' : bs = cs ∨ sameItems bs cs = true) :
    sameItems as bs = true := by
  rcases h with rfl | h
  · rcases h' with rfl | h'
    · exact sameItems_refl _ has
    · exact (hbs.symm h').2
  · rcases h' with rfl | h'
    · exact h
    · exact sameItems_trans h (hbs.symm h').2

/-! ### Values that are read -/

theorem FieldsDistinct.put {k : String} (ha : a.Distinct) (hfs : FieldsDistinct fs) :
    FieldsDistinct (Assoc.put k a fs) := by
  induction fs with
  | nil => exact ⟨ha, trivial⟩
  | cons f fs ih =>
    rw [Assoc.put]
    split
    · exact ⟨ha, hfs.2⟩
    · exact ⟨hfs.1, ih hfs.2⟩

mutual

/-- A value that is read has no repeated keys, also where the text repeats one. -/
theorem ofTree?_distinct : (t : Tree) → {v : Json} → ofTree? t = some v → v.Distinct
  | .null, _, h | .nonFinite, _, h => by obtain rfl := Option.some.inj h; trivial
  | .bool _, _, h | .unsigned _, _, h | .signed _, _, h | .float _, _, h | .str _, _, h => by
    obtain rfl := Option.some.inj h; trivial
  | .seq items, v, h => by
    obtain ⟨vs, hvs, rfl⟩ := Option.map_eq_some_iff.mp h
    exact ofTrees?_distinct items hvs
  | .map entries, v, h => by
    obtain ⟨fs, hfs, rfl⟩ := Option.map_eq_some_iff.mp h
    exact ofEntries?_distinct entries [] List.nodup_nil trivial hfs

theorem ofTrees?_distinct : (ts : List Tree) → {vs : List Json} → ofTrees? ts = some vs →
    AllDistinct vs
  | [], _, h => by obtain rfl := Option.some.inj h; trivial
  | t :: ts, _, h => by
    obtain ⟨v, hv, h⟩ := Option.bind_eq_some_iff.mp h
    obtain ⟨vs, hvs, h⟩ := Option.bind_eq_some_iff.mp h
    obtain rfl := Option.some.inj h
    exact ⟨ofTree?_distinct t hv, ofTrees?_distinct ts hvs⟩

theorem ofEntries?_distinct : (es : List (Tree × Tree)) → (fs : List (String × Json)) →
    {gs : List (String × Json)} → (fs.map (·.1)).Nodup → FieldsDistinct fs →
    ofEntries? fs es = some gs → (gs.map (·.1)).Nodup ∧ FieldsDistinct gs
  | [], _, _, hnodup, hfs, h => by
    obtain rfl := Option.some.inj h
    exact ⟨hnodup, hfs⟩
  | (.str k, t) :: es, fs, _, hnodup, hfs, h => by
    obtain ⟨v, hv, h⟩ := Option.bind_eq_some_iff.mp h
    exact ofEntries?_distinct es (Assoc.put k v fs) (Assoc.nodup_put k v hnodup)
      (hfs.put (ofTree?_distinct t hv)) h

end

end Json

end ApiClient

import ApiClient.Proofs.Registry
import ApiClient.Proofs.Values

/-! What a registry answers in the course of many requests. A name that is out of use stays out of use,
so a shape that is asked for again is found, and at no later variant than the first time. -/

namespace ApiClient

/-! ### Shapes that equal themselves -/

namespace TypeExpr

mutual

/-- No object in the type has a field twice. -/
def Distinct : TypeExpr → Prop
  | .object fs => (fs.map (·.1)).Nodup ∧ FieldsDistinct fs
  | .array t => t.Distinct
  | .map t => t.Distinct
  | .union ts => AllDistinct ts
  | .intersection ts => AllDistinct ts
  | _ => True

def AllDistinct : List TypeExpr → Prop
  | [] => True
  | t :: ts => t.Distinct ∧ AllDistinct ts

def FieldsDistinct : Fields → Prop
  | [] => True
  | (_, t) :: fs => t.Distinct ∧ FieldsDistinct fs

end

theorem sameFields_iff {fs gs : Fields} :
    sameFields fs gs = true ↔ ∀ f ∈ fs, ∃ u, gs.lookup f.1 = some u ∧ f.2.same u = true := by
  induction fs with
  | nil => simp [sameFields]
  | cons f fs ih =>
    obtain ⟨k, t⟩ := f
    rw [sameFields, Bool.and_eq_true, ih, List.forall_mem_cons]
    refine and_congr_left fun _ => ?_
    cases gs.lookup k <;> simp

/-- Each field of an object is found in it with its own type. -/
theorem sameObject_refl {fs : Fields} (hnodup : (fs.map (·.1)).Nodup)
    (h : ∀ f ∈ fs, f.2.same f.2 = true) : (fs.length == fs.length && sameFields fs fs) = true := by
  rw [beq_self_eq_true, Bool.true_and, sameFields_iff]
  exact fun f hf => ⟨f.2, Assoc.lookup_of_mem hnodup hf, h f hf⟩

mutual

theorem same_refl : (t : TypeExpr) → t.Distinct → t.same t = true
  | .primitive p, _ => by simp [same]
  | .object fs, h => by
    rw [same]
    exact sameObject_refl h.1 (sameFields_refl fs h.2)
  | .named n, _ => by simp [same]
  | .array t, h => same_refl t h
  | .map t, h => same_refl t h
  | .union ts, h => sameMembers_refl ts h
  | .intersection ts, h => sameMembers_refl ts h
  | .unknown, _ => rfl

theorem sameMembers_refl : (ts : List TypeExpr) → AllDistinct ts → sameMembers ts ts = true
  | [], _ => rfl
  | t :: ts, h => by
    rw [sameMembers, same_refl t h.1, sameMembers_refl ts h.2]
    rfl

theorem sameFields_refl : (fs : Fields) → FieldsDistinct fs → ∀ f ∈ fs, f.2.same f.2 = true
  | [], _, _, hf => by cases hf
  | (_, t) :: fs, h, f, hf => by
    rcases List.mem_cons.mp hf with rfl | hf
    · exact same_refl t h.1
    · exact sameFields_refl fs h.2 f hf

end

end TypeExpr

namespace Definition

/-- No object in the shape has a key twice. -/
def Distinct : Definition → Prop
  | .object fs => (fs.map (·.1)).Nodup ∧ TypeExpr.FieldsDistinct fs
  | .enum values => Json.AllDistinct values
  | .alias t => t.Distinct

theorem same_refl : (d : Definition) → d.Distinct → d.same d = true
  | .object fs, h => TypeExpr.sameObject_refl h.1 (TypeExpr.sameFields_refl fs h.2)
  | .enum values, h => Json.sameItems_refl values h
  | .alias t, h => t.same_refl h

end Definition

namespace Registry

variable {g h : Registry} {name : String} {d : Definition} {k : Nat}

/-! ### Requests one after the other -/

/-- A request to a registry. -/
inductive Request where
  | register (name : String) (d : Definition)
  | reserve (name : String)
  | fill (name : String) (d : Definition)

namespace Request

/-- The name that the request hands out or fills. -/
def place (g : Registry) : Request → String
  | .register name d => (g.register name d).1
  | .reserve name => (g.reserve name).1
  | .fill name _ => name

def serve (g : Registry) : Request → Registry
  | .register name d => (g.register name d).2
  | .reserve name => (g.reserve name).2
  | .fill name d => g.fill name d

/-- Only a name that is promised is filled. -/
def Permitted (g : Registry) : Request → Prop
  | .fill name _ => name ∈ g.reserved
  | _ => True

/-- The name that the request would like to have. -/
def wanted? : Request → Option String
  | .register name _ => some name
  | .reserve name => some name
  | .fill _ _ => none

end Request

/-- Requests that lead from one registry to another, and the names that they hand out or fill. -/
inductive History : Registry → List Request → List String → Registry → Prop
  | nil (g : Registry) : History g [] [] g
  | cons {g h : Registry} {r : Request} {rest : List Request} {names : List String}
      (permitted : r.Permitted g) (later : History (r.serve g) rest names h) :
      History g (r :: rest) (r.place g :: names) h

variable {r : Request} {requests : List Request} {names : List String} {n : String}

theorem Request.serve_ordered (hg : g.Ordered) (r : Request) : (r.serve g).Ordered := by
  cases r with
  | register name d => exact hg.register name d
  | reserve name => exact hg.reserve name
  | fill name d => exact hg.fill name d

theorem Request.serve_kept (hg : g.Ordered) (hr : r.Permitted g) : g.Kept (r.serve g) := by
  cases r with
  | register name d => exact kept_register g name d
  | reserve name =>
    obtain ⟨k, -, -, hreserve⟩ := reserve_cases g name
    intro n d hd
    rw [Request.serve, hreserve]
    exact hd
  | fill name d => exact kept_fill (hg.unfilled name hr) d

theorem get?_insert_eq_none_iff {c : String} {promised : List String} :
    get? ⟨insertEntry c d g.entries, promised⟩ n = none ↔ n ≠ c ∧ g.get? n = none := by
  by_cases hn : n = c
  · subst hn
    simp [get?, lookup_insertEntry_self]
  · rw [get?_insert_of_ne hn]
    simp [hn]

/-- A request takes one name out of use and brings none back. -/
theorem Request.vacant_serve_iff (r : Request) :
    (r.serve g).vacant n = true ↔ n ≠ r.place g ∧ g.vacant n = true := by
  cases r with
  | register name d =>
    obtain ⟨k, -, ⟨hheld, hr⟩ | ⟨-, hr⟩⟩ := register_cases g name d
    · -- The shape is found, and the name that holds it was not free before.
      have hk : g.vacant (numbered name k) ≠ true := by
        intro hv
        simp [holds, (vacant_iff.mp hv).1] at hheld
      rw [Request.serve, Request.place, hr]
      refine ⟨fun hn => ⟨?_, hn⟩, fun hn => hn.2⟩
      rintro rfl
      exact hk hn
    · rw [Request.serve, Request.place, hr, vacant_iff, vacant_iff, get?_insert_eq_none_iff, and_assoc]
  | reserve name =>
    obtain ⟨k, -, -, hr⟩ := reserve_cases g name
    rw [Request.serve, Request.place, hr, vacant_iff, vacant_iff, List.mem_cons, not_or]
    exact and_left_comm
  | fill name d =>
    rw [Request.serve, Request.place, Registry.fill, vacant_iff, vacant_iff, get?_insert_eq_none_iff,
      and_assoc]
    exact and_congr_right fun hn => and_congr_right fun _ => not_congr (List.mem_erase_of_ne hn)

theorem History.ordered (hist : History g requests names h) (hg : g.Ordered) : h.Ordered := by
  induction hist with
  | nil => exact hg
  | cons _ _ ih => exact ih (Request.serve_ordered hg _)

theorem History.kept (hist : History g requests names h) (hg : g.Ordered) : g.Kept h := by
  induction hist with
  | nil => exact .refl _
  | cons permitted _ ih =>
    exact (Request.serve_kept hg permitted).trans (ih (Request.serve_ordered hg _))

/-- What is free in the end was free at the start, and no request was about it. -/
theorem History.vacant (hist : History g requests names h) (hn : h.vacant n = true) :
    g.vacant n = true ∧ n ∉ names := by
  induction hist with
  | nil => exact ⟨hn, List.not_mem_nil⟩
  | cons _ _ ih =>
    obtain ⟨hserved, hrest⟩ := ih hn
    obtain ⟨hplace, hv⟩ := (Request.vacant_serve_iff _).mp hserved
    exact ⟨hv, List.not_mem_cons_of_ne_of_not_mem hplace hrest⟩

/-! ### Shapes that are found again -/

theorem holds_iff : g.holds n d = true ↔ ∃ e, g.get? n = some e ∧ e.same d = true := by
  rw [holds]
  cases g.get? n <;> simp

theorem holds_kept (hkept : g.Kept h) (hheld : g.holds n d = true) : h.holds n d = true := by
  obtain ⟨e, he, hsame⟩ := holds_iff.mp hheld
  exact holds_iff.mpr ⟨e, hkept n e he, hsame⟩

theorem not_vacant_of_holds (hheld : g.holds n d = true) : g.vacant n = false := by
  obtain ⟨e, he, -⟩ := holds_iff.mp hheld
  simp [Registry.vacant, contains, he]

/-- A registration that meets no free variant before an equal shape stores nothing. -/
theorem register_of_holds (hk : 1 ≤ k) (hheld : g.holds (numbered name k) d = true)
    (htaken : ∀ i, 1 ≤ i → i < k → g.vacant (numbered name i) = false) :
    ∃ j, 1 ≤ j ∧ j ≤ k ∧ g.holds (numbered name j) d = true ∧
      g.register name d = (numbered name j, g) := by
  obtain ⟨j, hj, -, hr⟩ := register_first g name d
  have hjk : j ≤ k := by
    by_contra hlt
    simpa [hheld] using hj.least k hk (by omega)
  have hnot : g.vacant (numbered name j) = false := by
    rcases hjk.lt_or_eq with hlt | rfl
    · exact htaken j hj.pos hlt
    · exact not_vacant_of_holds hheld
  have hheld' : g.holds (numbered name j) d = true := by simpa [hnot] using hj.passes
  exact ⟨j, hj.pos, hjk, hheld', by rw [hr, if_pos hheld']⟩

/-- The shape is found under the name afterwards, and all else is as it was. -/
structure Puts (g : Registry) (name : String) (d : Definition) (h : Registry) : Prop where
  found : h.holds name d = true
  stored : g.vacant name = true → h.get? name = some d
  reused : g.holds name d = true → h = g
  others : ∀ n, n ≠ name → h.get? n = g.get? n
  reserved : h.reserved = g.reserved
  ordered : h.Ordered

theorem register_puts (hg : g.Ordered) (hd : d.Distinct) (name : String) :
    Puts g (g.register name d).1 d (g.register name d).2 := by
  have hordered := hg.register name d
  obtain ⟨k, -, ⟨hheld, hr⟩ | ⟨hv, hr⟩⟩ := register_cases g name d
  · rw [hr] at hordered ⊢
    refine ⟨hheld, fun hv => ?_, fun _ => rfl, fun _ _ => rfl, rfl, hordered⟩
    simp [not_vacant_of_holds hheld] at hv
  · rw [hr] at hordered ⊢
    have hstored := lookup_insertEntry_self (numbered name k) d g.entries
    refine ⟨holds_iff.mpr ⟨d, hstored, d.same_refl hd⟩, fun _ => hstored, fun hheld => ?_,
      fun n hn => get?_insert_of_ne hn d _, rfl, hordered⟩
    simp [not_vacant_of_holds hheld] at hv

/-- The shape is found again after any further requests, at no later variant. -/
theorem register_again {again : Registry} (hg : g.Ordered) (hd : d.Distinct)
    (hk : FirstVariant (fun c => g.holds c d || g.vacant c) name k)
    (hname : (g.register name d).1 = numbered name k)
    (hist : History (g.register name d).2 requests names again) :
    ∃ j, 1 ≤ j ∧ j ≤ k ∧ again.holds (numbered name j) d = true ∧
      again.register name d = (numbered name j, again) := by
  have hputs := register_puts hg hd name
  rw [hname] at hputs
  refine register_of_holds hk.pos (holds_kept (hist.kept hputs.ordered) hputs.found) fun i hi hik => ?_
  -- A variant before it was taken when the search passed it, and it stays so.
  have hpassed := hk.least i hi hik
  simp only [Bool.or_eq_false_iff] at hpassed
  by_contra hfree
  have hserved := (hist.vacant (Bool.not_eq_false _ ▸ hfree)).1
  have hbefore := ((Request.vacant_serve_iff (.register name d)).mp hserved).2
  simp [hpassed.2] at hbefore

/-- A registration and a reservation take the least variant that they can. The shape of a registration
is found from then on, and a reserved name is none that was handed out before. -/
theorem takes_least_variant (hg : g.Ordered) (hd : d.Distinct) (name : String) :
    (∃ k, FirstVariant (fun c => g.holds c d || g.vacant c) name k ∧
      k ≤ g.entries.length + g.reserved.length + 1 ∧ (g.register name d).1 = numbered name k ∧
      Puts g (numbered name k) d (g.register name d).2 ∧
      ∀ later handed again, History (g.register name d).2 later handed again →
        ∃ j, 1 ≤ j ∧ j ≤ k ∧ again.holds (numbered name j) d = true ∧
          again.register name d = (numbered name j, again)) ∧
    ∃ k, FirstVariant g.vacant name k ∧ k ≤ g.entries.length + g.reserved.length + 1 ∧
      g.reserve name = (numbered name k, ⟨g.entries, numbered name k :: g.reserved⟩) ∧
      ∀ start before handed, History start before handed g → numbered name k ∉ handed := by
  obtain ⟨k, hk, hbound, hr⟩ := register_first g name d
  have hname : (g.register name d).1 = numbered name k := by rw [hr]
  have hputs := register_puts hg hd name
  rw [hname] at hputs
  refine ⟨⟨k, hk, hbound, hname, hputs, fun _ _ _ hist => register_again hg hd hk hname hist⟩, ?_⟩
  obtain ⟨k, hk, hbound, hr⟩ := reserve_first g name
  exact ⟨k, hk, hbound, hr, fun _ _ _ hist => (hist.vacant hk.passes).2⟩

/-- Two names are in use when a shape is registered as the third; the promise of the second one is then
kept with an equal shape, which is found first from then on. -/
theorem takes_least_variant_promised :
    let on : Definition := .enum [.str "on"]
    let off : Definition := .enum [.str "off"]
    let g : Registry := ⟨[("State", on)], ["State2"]⟩
    g.Ordered ∧ off.Distinct ∧ (g.register "State" off).1 = "State3" ∧
      (g.reserve "State").1 = "State3" ∧
      ∃ again, History (g.register "State" off).2 [.fill "State2" off] ["State2"] again ∧
        again.register "State" off = ("State2", again) ∧
        again.names = ["State", "State2", "State3"] := by
  intro on off g
  have hg : g.Ordered := ⟨.cons (by simp) .nil, by simp [g, get?], by simp [g]⟩
  have hd : off.Distinct := ⟨trivial, trivial⟩
  have hname : (g.register "State" off).1 = "State3" := by decide +kernel
  have hreserve : (g.reserve "State").1 = "State3" := by decide +kernel
  have hpermitted : (Request.fill "State2" off).Permitted (g.register "State" off).2 := by
    rw [Request.Permitted, reserved_register]
    exact List.mem_singleton.mpr rfl
  obtain ⟨k, -, -, -, -, hagain⟩ := (takes_least_variant hg hd "State").1
  have hist := History.cons hpermitted (.nil _)
  obtain ⟨j, -, -, -, hj⟩ := hagain _ _ _ hist
  refine ⟨hg, hd, hname, hreserve, _, hist, ?_, by decide +kernel⟩
  have hsecond : (((Request.fill "State2" off).serve (g.register "State" off).2).register
      "State" off).1 = "State2" := by decide +kernel
  rw [hj] at hsecond
  exact hj.trans (congrArg (·, _) hsecond)

/-! ### Gaps between the variants of a name -/

/-- The registration finds an equal shape and stores nothing. -/
def Reuses (g : Registry) (name : String) (d : Definition) : Prop :=
  ∃ k, 1 ≤ k ∧ g.holds (numbered name k) d = true ∧ g.register name d = (numbered name k, g)

/-- The search finds an equal shape exactly if it meets one before a free variant. -/
theorem reuses_iff : g.Reuses name d ↔ ∃ k, 1 ≤ k ∧ g.holds (numbered name k) d = true ∧
    ∀ i, 1 ≤ i → i < k → g.vacant (numbered name i) = false := by
  constructor
  · rintro ⟨k, -, hheld, hr⟩
    obtain ⟨j, hj, -, hr'⟩ := register_first g name d
    obtain rfl : j = k := numbered_injective name (congrArg Prod.fst (hr'.symm.trans hr))
    refine ⟨j, hj.pos, hheld, fun i hi hij => ?_⟩
    have hpassed := hj.least i hi hij
    simp only [Bool.or_eq_false_iff] at hpassed
    exact hpassed.2
  · rintro ⟨k, hk, hheld, htaken⟩
    obtain ⟨j, hj, -, hheld', hr⟩ := register_of_holds hk hheld htaken
    exact ⟨j, hj, hheld', hr⟩

/-- What is not reused is stored at the first free variant. -/
theorem register_of_not_reuses (hnot : ¬ g.Reuses name d) :
    ∃ k, FirstVariant g.vacant name k ∧
      g.register name d = (numbered name k, ⟨insertEntry (numbered name k) d g.entries, g.reserved⟩) := by
  obtain ⟨k, hk, -, hr⟩ := register_first g name d
  cases hheld : g.holds (numbered name k) d with
  | true => exact absurd ⟨k, hk.pos, hheld, by rw [hr, if_pos hheld]⟩ hnot
  | false =>
    refine ⟨k, ⟨hk.pos, by simpa [hheld] using hk.passes, fun i hi hik => ?_⟩, by simp [hr, hheld]⟩
    have hpassed := hk.least i hi hik
    simp only [Bool.or_eq_false_iff] at hpassed
    exact hpassed.2

/-- No variant of the one name is a variant of the other. -/
def Apart (name other : String) : Prop :=
  ∀ i j, 1 ≤ i → 1 ≤ j → numbered name i ≠ numbered other j

/-- Names that begin with different letters have no variant in common. -/
theorem apart_of_head? {other : String} {a b : Char} (ha : name.toList.head? = some a)
    (hb : other.toList.head? = some b) (hne : a ≠ b) : Apart name other := by
  have hhead {base : String} {c : Char} (hc : base.toList.head? = some c) (i : Nat) :
      (numbered base i).toList.head? = some c := by
    rw [numbered]
    split_ifs
    · exact hc
    · simp [List.head?_append, hc]
  intro i j _ _ hij
  have hab := (hhead ha i).symm.trans (hij ▸ hhead hb j)
  exact hne (Option.some.inj hab)

/-- No variant in use comes after a free one. -/
def Gapless (name : String) (g : Registry) : Prop :=
  ∀ i j, 1 ≤ i → i ≤ j → g.vacant (numbered name i) = true → g.vacant (numbered name j) = true

/-- A free name that a request takes is the first free variant of the name it wants. -/
theorem Request.place_first (hr : r.Permitted g) (hfree : g.vacant (r.place g) = true) :
    ∃ other ∈ r.wanted?, ∃ k, FirstVariant g.vacant other k ∧ r.place g = numbered other k := by
  cases r with
  | register other d =>
    have hnot : ¬ g.Reuses other d := by
      rintro ⟨k, -, hheld, hr⟩
      rw [Request.place, hr, not_vacant_of_holds hheld] at hfree
      cases hfree
    obtain ⟨k, hk, hr⟩ := register_of_not_reuses hnot
    exact ⟨other, rfl, k, hk, congrArg Prod.fst hr⟩
  | reserve other =>
    obtain ⟨k, hk, -, hr⟩ := reserve_first g other
    exact ⟨other, rfl, k, hk, congrArg Prod.fst hr⟩
  | fill other d => exact absurd hr (vacant_iff.mp hfree).2

theorem Gapless.serve (hgap : Gapless name g) (hr : r.Permitted g)
    (hw : ∀ other ∈ r.wanted?, other = name ∨ Apart other name) : Gapless name (r.serve g) := by
  intro i j hi hij hvi
  obtain ⟨hne, hvi⟩ := (Request.vacant_serve_iff r).mp hvi
  have hvj := hgap i j hi hij hvi
  refine (Request.vacant_serve_iff r).mpr ⟨fun hj => ?_, hvj⟩
  obtain ⟨other, hother, k, hk, hplace⟩ := Request.place_first hr (hj ▸ hvj)
  rcases hw other hother with rfl | hapart
  · -- The request passed the free variant `i`, which is not the one it took.
    obtain rfl : j = k := numbered_injective other (hj.trans hplace)
    have hlt : i < j := lt_of_le_of_ne hij fun h => hne (h ▸ hj)
    simp [hk.least i hi hlt] at hvi
  · exact hapart k j hk.pos (by omega) (hplace.symm.trans hj.symm)

theorem History.gapless (hist : History g requests names h) (hgap : Gapless name g)
    (hw : ∀ r ∈ requests, ∀ other ∈ r.wanted?, other = name ∨ Apart other name) :
    Gapless name h := by
  induction hist with
  | nil => exact hgap
  | cons permitted _ ih =>
    exact ih (hgap.serve permitted (hw _ List.mem_cons_self))
      fun r hr => hw r (List.mem_cons_of_mem _ hr)

theorem Gapless.reuses (hgap : Gapless name g) (hk : 1 ≤ k)
    (hheld : g.holds (numbered name k) d = true) : g.Reuses name d := by
  refine reuses_iff.mpr ⟨k, hk, hheld, fun i hi hik => ?_⟩
  by_contra hfree
  have hvk := hgap i k hi hik.le (Bool.not_eq_false _ ▸ hfree)
  simp [not_vacant_of_holds hheld] at hvk

/-- An equal shape under a variant of the name is reused exactly if a search meets one before a free
variant. It always does where no other name that was asked for has a variant in common with the name.
Otherwise there are two copies of the shape afterwards. -/
theorem register_reuses (hist : History .empty requests names g) (hk : 1 ≤ k)
    (hheld : g.holds (numbered name k) d = true) :
    (g.Reuses name d ↔ ∃ j, 1 ≤ j ∧ g.holds (numbered name j) d = true ∧
      ∀ i, 1 ≤ i → i < j → g.vacant (numbered name i) = false) ∧
    ((∀ r ∈ requests, ∀ other ∈ r.wanted?, other = name ∨ Apart other name) → g.Reuses name d) ∧
    (¬ g.Reuses name d → ∃ j, FirstVariant g.vacant name j ∧ j ≠ k ∧
      (g.register name d).1 = numbered name j ∧
      (g.register name d).2.get? (numbered name j) = some d ∧
      (g.register name d).2.holds (numbered name k) d = true) := by
  refine ⟨reuses_iff, fun hw => ?_, fun hnot => ?_⟩
  · have hempty : Gapless name .empty := fun _ _ _ _ _ => rfl
    exact (hist.gapless hempty hw).reuses hk hheld
  · have hkept := holds_kept (kept_register g name d) hheld
    obtain ⟨j, hj, hr⟩ := register_of_not_reuses hnot
    rw [hr] at hkept ⊢
    refine ⟨j, hj, ?_, rfl, lookup_insertEntry_self _ d _, hkept⟩
    rintro rfl
    exact Bool.false_ne_true ((not_vacant_of_holds hheld).symm.trans hj.passes)

theorem register_reuses_second :
    let on : Definition := .enum [.str "on"]
    let off : Definition := .enum [.str "off"]
    let requests : List Request := [.register "State" on, .register "Note" off, .register "State" off]
    ∃ g, History .empty requests ["State", "Note", "State2"] g ∧
      g.holds (numbered "State" 2) off = true ∧ Apart "Note" "State" ∧ g.Reuses "State" off := by
  intro on off requests
  let g₁ := (Registry.empty.register "State" on).2
  let g₂ := (g₁.register "Note" off).2
  let g₃ := (g₂.register "State" off).2
  have hplaces : [(Registry.empty.register "State" on).1, (g₁.register "Note" off).1,
      (g₂.register "State" off).1] = ["State", "Note", "State2"] := by decide +kernel
  have hist : History .empty requests ["State", "Note", "State2"] g₃ :=
    hplaces ▸ .cons trivial (.cons trivial (.cons trivial (.nil g₃)))
  have hheld : g₃.holds (numbered "State" 2) off = true := by decide +kernel
  have hapart : Apart "Note" "State" := apart_of_head? rfl rfl (by decide)
  refine ⟨g₃, hist, hheld, hapart, (register_reuses hist (by decide) hheld).2.1 ?_⟩
  simp [requests, Request.wanted?, hapart]

/-- The name `Status2` is taken by a shape of its own before anyone asks for `Status`. -/
theorem register_stores_second_copy :
    let shape : Definition := .enum [.str "a"]
    ∃ g, History .empty [.register "Status2" shape] ["Status2"] g ∧
      g.holds (numbered "Status" 2) shape = true ∧ (g.register "Status" shape).1 = "Status" ∧
      (g.register "Status" shape).2.names = ["Status", "Status2"] ∧ ¬ g.Reuses "Status" shape := by
  intro shape
  let g := (Registry.empty.register "Status2" shape).2
  have hplace : (Registry.empty.register "Status2" shape).1 = "Status2" := by decide +kernel
  have hist : History .empty [.register "Status2" shape] ["Status2"] g :=
    hplace ▸ .cons trivial (.nil g)
  have hnames : (g.register "Status" shape).2.names = ["Status", "Status2"] := by decide +kernel
  refine ⟨g, hist, by decide +kernel, by decide +kernel, hnames, ?_⟩
  rintro ⟨k, -, -, hr⟩
  have hsame : (g.register "Status" shape).2 = g := by rw [hr]
  have hbefore : g.names = ["Status2"] := by decide +kernel
  rw [hsame, hbefore] at hnames
  exact absurd hnames (by decide)

end Registry

end ApiClient

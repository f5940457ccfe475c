import ApiClient.Inspection
import ApiClient.Proofs.Combinations
import ApiClient.Proofs.PrettyTexts
import ApiClient.Proofs.Values

/-! What the dump of a resolution tells. The key of a field in it is one text, so that a required field
whose name ends in a question mark is taken for an optional one. That is all that the dump confuses. -/

namespace ApiClient

namespace FieldKey

/-- The field that a text is the key of, where a question mark at its end says that it is optional. -/
def ofText (s : String) : FieldKey :=
  if s.toList.getLast? = some '?' then ⟨String.ofList s.toList.dropLast, true⟩ else ⟨s, false⟩

variable {k l : FieldKey}

theorem text_ofText (s : String) : (ofText s).text = s := by
  rw [ofText]
  split_ifs with h
  · have hs := List.dropLast_append_getLast? '?' h
    rw [text, if_pos rfl, ← String.toList_inj, String.toList_append, String.toList_ofList]
    exact hs
  · simp [text]

/-- A required field whose name looks like an optional one's key. -/
def Marked (k : FieldKey) : Prop := ∃ n, k = ⟨n ++ "?", false⟩

theorem ofText_optional (n : String) : ofText (text ⟨n, true⟩) = ⟨n, true⟩ := by
  have htext : (text ⟨n, true⟩).toList = n.toList ++ ['?'] := by simp [text]
  rw [ofText, htext, if_pos List.getLast?_concat, List.dropLast_concat, String.ofList_toList]

theorem ofText_text (h : ¬ k.Marked) : ofText k.text = k := by
  obtain ⟨n, _ | _⟩ := k
  · have htext : text ⟨n, false⟩ = n := by simp [text]
    rw [htext, ofText, if_neg]
    intro hlast
    have hn := List.dropLast_append_getLast? '?' hlast
    refine h ⟨String.ofList n.toList.dropLast, ?_⟩
    rw [FieldKey.mk.injEq, ← String.toList_inj, String.toList_append, String.toList_ofList]
    exact ⟨hn.symm, rfl⟩
  · exact ofText_optional n

/-- Two different fields have one key exactly if one of them is taken for the other. -/
theorem text_eq_cases (h : k.text = l.text) :
    k = l ∨ ∃ n, k = ⟨n ++ "?", false⟩ ∧ l = ⟨n, true⟩ ∨ k = ⟨n, true⟩ ∧ l = ⟨n ++ "?", false⟩ := by
  have hmarked {k l : FieldKey} (h : k.text = l.text) (hk : k.Marked) (hl : ¬ l.Marked) :
      ∃ n, k = ⟨n ++ "?", false⟩ ∧ l = ⟨n, true⟩ := by
    obtain ⟨n, rfl⟩ := hk
    have htext : text ⟨n ++ "?", false⟩ = text ⟨n, true⟩ := by simp [text]
    exact ⟨n, rfl, by rw [← ofText_text hl, ← h, htext, ofText_optional]⟩
  by_cases hk : k.Marked
  · by_cases hl : l.Marked
    · obtain ⟨m, rfl⟩ := hk
      obtain ⟨n, rfl⟩ := hl
      exact .inl (by simpa [text] using h)
    · obtain ⟨n, hn⟩ := hmarked h hk hl
      exact .inr ⟨n, .inl hn⟩
  · by_cases hl : l.Marked
    · obtain ⟨n, hn⟩ := hmarked h.symm hl hk
      exact .inr ⟨n, .inr hn.symm⟩
    · exact .inl (by rw [← ofText_text hk, h, ofText_text hl])

end FieldKey

/-- The keys of a field map are different in the dump exactly if no required field is taken for an optional
one beside it. -/
theorem Fields.nodup_texts_iff {fs : Fields} (h : (fs.map (·.1)).Nodup) :
    (fs.map (·.1.text)).Nodup ↔
      ∀ n, ⟨n ++ "?", false⟩ ∈ fs.map (·.1) → ⟨n, true⟩ ∉ fs.map (·.1) := by
  have hmap : fs.map (·.1.text) = (fs.map (·.1)).map FieldKey.text := by simp
  rw [hmap, List.nodup_map_iff_inj_on h]
  constructor
  · intro hinj n hrequired hoptional
    have heq := hinj _ hrequired _ hoptional (by simp [FieldKey.text])
    simp at heq
  · intro hfree k hk l hl htext
    rcases FieldKey.text_eq_cases htext with heq | ⟨n, ⟨rfl, rfl⟩ | ⟨rfl, rfl⟩⟩
    · exact heq
    · exact absurd hl (hfree n hk)
    · exact absurd hk (hfree n hl)

/-! ### Types and shapes as one takes them from the dump -/

mutual

/-- The type with the fields that its keys are taken for. -/
def TypeExpr.reread : TypeExpr → TypeExpr
  | .primitive p => .primitive p
  | .object fs => .object (TypeExpr.rereadFields fs)
  | .named n => .named n
  | .array t => .array t.reread
  | .map t => .map t.reread
  | .union ts => .union (TypeExpr.rereadAll ts)
  | .intersection ts => .intersection (TypeExpr.rereadAll ts)
  | .unknown => .unknown

def TypeExpr.rereadAll : List TypeExpr → List TypeExpr
  | [] => []
  | t :: ts => t.reread :: rereadAll ts

def TypeExpr.rereadFields : Fields → Fields
  | [] => []
  | (k, t) :: fs => (.ofText k.text, t.reread) :: rereadFields fs

end

def Definition.reread : Definition → Definition
  | .object fs => .object (TypeExpr.rereadFields fs)
  | .enum vs => .enum vs
  | .alias t => .alias t.reread

def Endpoint.reread (op : Endpoint) : Endpoint :=
  { op with
    requestType := TypeExpr.rereadFields op.requestType
    responseType := op.responseType.reread }

def Registry.reread (g : Registry) : Registry :=
  { g with entries := g.entries.map fun (n, d) => (n, d.reread) }

def Resolution.reread (R : Resolution) : Resolution :=
  ⟨R.operations.map Endpoint.reread, R.definitions.reread⟩

/-! ### One dump -/

theorem Primitive.tag_injective {p q : Primitive} (h : p.tag = q.tag) : p = q := by
  cases p <;> cases q <;> simp_all [tag]

namespace TypeExpr

mutual

theorem toJson_reread : (t : TypeExpr) → t.reread.toJson = t.toJson
  | .primitive _ => rfl
  | .object fs => by rw [reread, toJson, fieldsToJson_reread fs, toJson]
  | .named _ => rfl
  | .array t => by rw [reread, toJson, toJson_reread t, toJson]
  | .map t => by rw [reread, toJson, toJson_reread t, toJson]
  | .union ts => by rw [reread, toJson, membersToJson_reread ts, toJson]
  | .intersection ts => by rw [reread, toJson, membersToJson_reread ts, toJson]
  | .unknown => rfl

theorem membersToJson_reread : (ts : List TypeExpr) → membersToJson (rereadAll ts) = membersToJson ts
  | [] => rfl
  | t :: ts => by rw [rereadAll, membersToJson, toJson_reread t, membersToJson_reread ts, membersToJson]

theorem fieldsToJson_reread : (fs : Fields) → fieldsToJson (rereadFields fs) = fieldsToJson fs
  | [] => rfl
  | (k, t) :: fs => by
    rw [rereadFields, fieldsToJson, toJson_reread t, fieldsToJson_reread fs, FieldKey.text_ofText,
      fieldsToJson]

end

mutual

/-- Types with one dump are taken for one type. -/
theorem reread_eq_of_toJson : (t u : TypeExpr) → t.toJson = u.toJson → t.reread = u.reread
  | .primitive p, u, h => by
    cases u with
    | primitive q =>
      simp only [toJson, Json.obj.injEq, List.cons.injEq, Prod.mk.injEq, Json.str.injEq] at h
      rw [Primitive.tag_injective h.1.2]
    | _ => simp [toJson] at h
  | .object fs, u, h => by
    cases u with
    | object gs =>
      simp only [toJson, Json.obj.injEq, List.cons.injEq, Prod.mk.injEq] at h
      rw [reread, rereadFields_eq_of_toJson fs gs h.1.2, reread]
    | _ => simp [toJson] at h
  | .named n, u, h => by
    cases u with
    | named m =>
      simp only [toJson, Json.obj.injEq, List.cons.injEq, Prod.mk.injEq, Json.str.injEq] at h
      rw [h.1.2]
    | _ => simp [toJson] at h
  | .array t, u, h => by
    cases u with
    | array u =>
      simp only [toJson, Json.obj.injEq, List.cons.injEq, Prod.mk.injEq] at h
      rw [reread, reread_eq_of_toJson t u h.1.2, reread]
    | _ => simp [toJson] at h
  | .map t, u, h => by
    cases u with
    | map u =>
      simp only [toJson, Json.obj.injEq, List.cons.injEq, Prod.mk.injEq] at h
      rw [reread, reread_eq_of_toJson t u h.1.2, reread]
    | _ => simp [toJson] at h
  | .union ts, u, h => by
    cases u with
    | union us =>
      simp only [toJson, Json.obj.injEq, List.cons.injEq, Prod.mk.injEq, Json.arr.injEq] at h
      rw [reread, rereadAll_eq_of_toJson ts us h.1.2, reread]
    | _ => simp [toJson] at h
  | .intersection ts, u, h => by
    cases u with
    | intersection us =>
      simp only [toJson, Json.obj.injEq, List.cons.injEq, Prod.mk.injEq, Json.arr.injEq] at h
      rw [reread, rereadAll_eq_of_toJson ts us h.1.2, reread]
    | _ => simp [toJson] at h
  | .unknown, u, h => by
    cases u with
    | unknown => rfl
    | _ => simp [toJson] at h

theorem rereadAll_eq_of_toJson : (ts us : List TypeExpr) → membersToJson ts = membersToJson us →
    rereadAll ts = rereadAll us
  | [], [], _ => rfl
  | [], u :: us, h => by simp [membersToJson] at h
  | t :: ts, [], h => by simp [membersToJson] at h
  | t :: ts, u :: us, h => by
    obtain ⟨hfirst, hrest⟩ := List.cons.inj h
    rw [rereadAll, reread_eq_of_toJson t u hfirst, rereadAll_eq_of_toJson ts us hrest, rereadAll]

theorem rereadFields_eq_of_toJson : (fs gs : Fields) → fieldsToJson fs = fieldsToJson gs →
    rereadFields fs = rereadFields gs
  | [], [], _ => rfl
  | [], g :: gs, h => by simp [fieldsToJson] at h
  | f :: fs, [], h => by simp [fieldsToJson] at h
  | (k, t) :: fs, (l, u) :: gs, h => by
    obtain ⟨hfirst, hrest⟩ := List.cons.inj h
    obtain ⟨hkey, htype⟩ := Prod.mk.inj hfirst
    rw [rereadFields, hkey, reread_eq_of_toJson t u htype, rereadFields_eq_of_toJson fs gs hrest,
      rereadFields]

end

theorem toJson_eq_iff {t u : TypeExpr} : t.toJson = u.toJson ↔ t.reread = u.reread :=
  ⟨reread_eq_of_toJson t u, fun h => by rw [← toJson_reread t, h, toJson_reread u]⟩

theorem fieldsToJson_eq_iff {fs gs : Fields} :
    fieldsToJson fs = fieldsToJson gs ↔ rereadFields fs = rereadFields gs :=
  ⟨rereadFields_eq_of_toJson fs gs, fun h => by
    rw [← fieldsToJson_reread fs, h, fieldsToJson_reread gs]⟩

end TypeExpr

theorem Definition.toJson_eq_iff {d e : Definition} : d.toJson = e.toJson ↔ d.reread = e.reread := by
  cases d <;> cases e <;>
    simp [toJson, reread, TypeExpr.toJson_eq_iff, TypeExpr.fieldsToJson_eq_iff]

theorem Method.text_injective {m m' : Method} (h : m.text = m'.text) : m = m' := by
  cases m <;> cases m' <;> simp_all [text]

theorem Endpoint.toJson_eq_iff {op op' : Endpoint} :
    op.toJson = op'.toJson ↔ op.reread = op'.reread := by
  obtain ⟨url, method, id, pathParams, queryParams, bodyParams, formParams, requestType, responseType⟩ :=
    op
  obtain ⟨url', method', id', pathParams', queryParams', bodyParams', formParams', requestType',
    responseType'⟩ := op'
  have hnames (ns ms : List String) : ns.map Json.str = ms.map Json.str ↔ ns = ms :=
    (List.map_injective_iff.mpr fun _ _ => Json.str.inj).eq_iff
  have hmethod : method.text = method'.text ↔ method = method' :=
    ⟨Method.text_injective, congrArg Method.text⟩
  simp [toJson, reread, hnames, hmethod, TypeExpr.toJson_eq_iff, TypeExpr.fieldsToJson_eq_iff]

theorem map_eq_map_iff {α β γ : Type} {f : α → β} {r : α → γ} (h : ∀ a b, f a = f b ↔ r a = r b)
    {as bs : List α} : as.map f = bs.map f ↔ as.map r = bs.map r := by
  induction as generalizing bs with
  | nil => simp
  | cons a as ih =>
    cases bs with
    | nil => simp
    | cons b bs => simp [h, ih]

/-- Promises are not in the dump. -/
theorem Resolution.toJson_eq_iff {R R' : Resolution}
    (h : R.definitions.reserved = R'.definitions.reserved) :
    R.toJson = R'.toJson ↔ R.reread = R'.reread := by
  have hentry (e e' : String × Definition) : (e.1, e.2.toJson) = (e'.1, e'.2.toJson) ↔
      (e.1, e.2.reread) = (e'.1, e'.2.reread) := by
    simp [Definition.toJson_eq_iff]
  simp [toJson, reread, Registry.toJson, Registry.reread, h,
    map_eq_map_iff (fun _ _ => Endpoint.toJson_eq_iff), map_eq_map_iff hentry]

/-! ### The objects in a type -/

namespace TypeExpr

/-- The property holds of the fields of every object in the type. -/
def Throughout (P : Fields → Prop) (t : TypeExpr) : Prop :=
  t.Everywhere fun u => ∀ fs, u = .object fs → P fs

variable {P : Fields → Prop} {t : TypeExpr} {ts : List TypeExpr} {fs : Fields}

theorem throughout_iff : t.Throughout P ↔ ∀ fs, (object fs).StandsIn t → P fs :=
  ⟨fun h fs hfs => h _ hfs fs rfl, fun h _ hu fs hfs => h fs (hfs ▸ hu)⟩

theorem throughout_primitive (p : Primitive) : (primitive p).Throughout P := everywhere_primitive nofun

theorem throughout_named (n : String) : (named n).Throughout P := everywhere_named nofun

theorem throughout_unknown : unknown.Throughout P := everywhere_unknown nofun

theorem throughout_object : (object fs).Throughout P ↔ P fs ∧ ∀ f ∈ fs, f.2.Throughout P :=
  everywhere_object.trans <| and_congr_left fun _ =>
    ⟨fun h => h fs rfl, fun h _ hfs => object.inj hfs ▸ h⟩

theorem throughout_array : (array t).Throughout P ↔ t.Throughout P :=
  everywhere_array.trans (and_iff_right nofun)

theorem throughout_map : (map t).Throughout P ↔ t.Throughout P :=
  everywhere_map.trans (and_iff_right nofun)

theorem throughout_union : (union ts).Throughout P ↔ ∀ t ∈ ts, t.Throughout P :=
  everywhere_union.trans (and_iff_right nofun)

theorem throughout_intersection : (intersection ts).Throughout P ↔ ∀ t ∈ ts, t.Throughout P :=
  everywhere_intersection.trans (and_iff_right nofun)

end TypeExpr

/-! ### What is taken for itself -/

namespace TypeExpr

/-- No field of an object in the type is taken for another one. -/
def Plain (t : TypeExpr) : Prop := t.Throughout fun fs => ∀ f ∈ fs, ¬ f.1.Marked

mutual

theorem reread_of_plain : (t : TypeExpr) → t.Plain → t.reread = t
  | .primitive _, _ => rfl
  | .object fs, h => by
    obtain ⟨hkeys, htypes⟩ := throughout_object.mp h
    rw [reread, rereadFields_of_plain fs hkeys htypes]
  | .named _, _ => rfl
  | .array t, h => by rw [reread, reread_of_plain t (throughout_array.mp h)]
  | .map t, h => by rw [reread, reread_of_plain t (throughout_map.mp h)]
  | .union ts, h => by rw [reread, rereadAll_of_plain ts (throughout_union.mp h)]
  | .intersection ts, h => by rw [reread, rereadAll_of_plain ts (throughout_intersection.mp h)]
  | .unknown, _ => rfl

theorem rereadAll_of_plain : (ts : List TypeExpr) → (∀ t ∈ ts, t.Plain) → rereadAll ts = ts
  | [], _ => rfl
  | t :: ts, h => by
    rw [List.forall_mem_cons] at h
    rw [rereadAll, reread_of_plain t h.1, rereadAll_of_plain ts h.2]

theorem rereadFields_of_plain : (fs : Fields) → (∀ f ∈ fs, ¬ f.1.Marked) →
    (∀ f ∈ fs, f.2.Plain) → rereadFields fs = fs
  | [], _, _ => rfl
  | (k, t) :: fs, hkeys, h => by
    rw [List.forall_mem_cons] at hkeys h
    rw [rereadFields, FieldKey.ofText_text hkeys.1, reread_of_plain t h.1,
      rereadFields_of_plain fs hkeys.2 h.2]

end

end TypeExpr

namespace Resolution

/-- The field maps of a resolution: those of its requests and of its shapes, and those of the objects in
its types. -/
inductive HasFields (R : Resolution) : Fields → Prop
  | request {op : Endpoint} : op ∈ R.operations → HasFields R op.requestType
  | shape {n : String} {fs : Fields} : (n, .object fs) ∈ R.definitions.entries → HasFields R fs
  | inside {fs : Fields} : R.Uses (.object fs) → HasFields R fs

/-- What the data types of a resolution say of themselves: no field map has a key twice, nor has an object
in a value of an enum, and the numbers in the values are in normal form. -/
structure Valid (R : Resolution) : Prop where
  once : ∀ fs, R.HasFields fs → (fs.map (·.1)).Nodup
  values : ∀ n vs, (n, Definition.enum vs) ∈ R.definitions.entries → ∀ v ∈ vs, v.Distinct ∧ v.Normal

variable {R : Resolution}

theorem uses_argument {op : Endpoint} (hop : op ∈ R.operations) {f : FieldKey × TypeExpr}
    (hf : f ∈ op.requestType) : R.Uses f.2 :=
  .operation hop (List.mem_append_left _ (List.mem_map_of_mem hf)) .self

theorem uses_answer {op : Endpoint} (hop : op ∈ R.operations) : R.Uses op.responseType :=
  .operation hop (List.mem_append_right _ List.mem_cons_self) .self

theorem reread_of_plain (h : ∀ fs, R.HasFields fs → ∀ f ∈ fs, ¬ f.1.Marked) : R.reread = R := by
  have hplain {u : TypeExpr} (hu : R.Uses u) : u.Plain :=
    TypeExpr.throughout_iff.mpr fun fs hfs => h fs (.inside (hu.inside hfs))
  have hfields {fs : Fields} (hfs : R.HasFields fs) (huses : ∀ f ∈ fs, R.Uses f.2) :
      TypeExpr.rereadFields fs = fs :=
    TypeExpr.rereadFields_of_plain fs (h fs hfs) fun f hf => hplain (huses f hf)
  have hops : ∀ op ∈ R.operations, op.reread = op := by
    intro op hop
    rw [Endpoint.reread, hfields (.request hop) fun f hf => uses_argument hop hf,
      TypeExpr.reread_of_plain _ (hplain (uses_answer hop))]
  have hentries : ∀ e ∈ R.definitions.entries, (e.1, e.2.reread) = e := by
    rintro ⟨n, D⟩ he
    cases D with
    | object fs =>
      have huses : ∀ f ∈ fs, R.Uses f.2 := fun f hf => .definition he (List.mem_map_of_mem hf) .self
      rw [Definition.reread, hfields (.shape he) huses]
    | enum vs => rfl
    | «alias» t =>
      rw [Definition.reread,
        TypeExpr.reread_of_plain t (hplain (.definition he List.mem_cons_self .self))]
  rw [reread, Registry.reread, List.map_congr_left hops, List.map_id', List.map_congr_left hentries,
    List.map_id']

end Resolution

/-! ### Numbers -/

theorem Json.allNormal_iff {vs : List Json} : AllNormal vs ↔ ∀ v ∈ vs, v.Normal := by
  induction vs with
  | nil => simp [AllNormal]
  | cons v vs ih => simp [AllNormal, ih]

theorem Json.fieldsNormal_iff {fs : List (String × Json)} : FieldsNormal fs ↔ ∀ f ∈ fs, f.2.Normal := by
  induction fs with
  | nil => simp [FieldsNormal]
  | cons f fs ih => simp [FieldsNormal, ih]

mutual

theorem TypeExpr.toJson_normal : (t : TypeExpr) → t.toJson.Normal
  | .primitive _ => ⟨trivial, trivial⟩
  | .object fs => ⟨TypeExpr.fieldsToJson_normal fs, trivial⟩
  | .named _ => ⟨trivial, trivial⟩
  | .array t => ⟨t.toJson_normal, trivial⟩
  | .map t => ⟨t.toJson_normal, trivial⟩
  | .union ts => ⟨TypeExpr.membersToJson_normal ts, trivial⟩
  | .intersection ts => ⟨TypeExpr.membersToJson_normal ts, trivial⟩
  | .unknown => trivial

theorem TypeExpr.membersToJson_normal : (ts : List TypeExpr) → Json.AllNormal (membersToJson ts)
  | [] => trivial
  | t :: ts => ⟨t.toJson_normal, TypeExpr.membersToJson_normal ts⟩

theorem TypeExpr.fieldsToJson_normal : (fs : Fields) → Json.FieldsNormal (fieldsToJson fs)
  | [] => trivial
  | (_, t) :: fs => ⟨t.toJson_normal, TypeExpr.fieldsToJson_normal fs⟩

end

theorem Endpoint.toJson_normal (op : Endpoint) : op.toJson.Normal := by
  have hnames (ns : List String) : Json.Normal (.arr (ns.map .str)) := by
    refine Json.allNormal_iff.mpr fun v hv => ?_
    obtain ⟨s, -, rfl⟩ := List.mem_map.mp hv
    exact trivial
  refine Json.fieldsNormal_iff.mpr ?_
  simp only [List.forall_mem_cons, hnames, TypeExpr.toJson_normal, true_and]
  exact ⟨trivial, trivial, trivial, TypeExpr.fieldsToJson_normal op.requestType, nofun⟩

theorem Resolution.Valid.toJson_normal {R : Resolution} (h : R.Valid) : R.toJson.Normal := by
  refine ⟨?_, ?_, trivial⟩
  · refine Json.allNormal_iff.mpr fun v hv => ?_
    obtain ⟨op, -, rfl⟩ := List.mem_map.mp hv
    exact op.toJson_normal
  · refine Json.fieldsNormal_iff.mpr fun f hf => ?_
    obtain ⟨⟨n, D⟩, he, rfl⟩ := List.mem_map.mp hf
    cases D with
    | object fs => exact ⟨trivial, TypeExpr.fieldsToJson_normal fs, trivial⟩
    | enum vs => exact ⟨trivial, Json.allNormal_iff.mpr fun v hv => (h.values n vs he v hv).2, trivial⟩
    | «alias» t => exact ⟨trivial, t.toJson_normal, trivial⟩

/-! ### Repeated keys -/

theorem Json.allDistinct_iff {vs : List Json} : AllDistinct vs ↔ ∀ v ∈ vs, v.Distinct := by
  induction vs with
  | nil => simp [AllDistinct]
  | cons v vs ih => simp [AllDistinct, ih]

namespace TypeExpr

theorem membersToJson_eq (ts : List TypeExpr) : membersToJson ts = ts.map toJson := by
  induction ts with
  | nil => rfl
  | cons t ts ih => rw [membersToJson, ih, List.map_cons]

theorem fieldsToJson_eq (fs : Fields) : fieldsToJson fs = fs.map fun f => (f.1.text, f.2.toJson) := by
  induction fs with
  | nil => rfl
  | cons f fs ih => rw [fieldsToJson, ih, List.map_cons]

/-- The keys of every object in the type are different in the dump. -/
def Apart (t : TypeExpr) : Prop := t.Throughout fun fs => (fs.map (·.1.text)).Nodup

theorem distinct_fieldsToJson {fs : Fields} (h : ∀ f ∈ fs, f.2.toJson.Distinct ↔ f.2.Apart) :
    (Json.obj (fieldsToJson fs)).Distinct ↔
      (fs.map (·.1.text)).Nodup ∧ ∀ f ∈ fs, f.2.Apart := by
  have hfields : Json.FieldsDistinct (fieldsToJson fs) ↔ ∀ f ∈ fs, f.2.Apart := by
    rw [fieldsToJson_eq, Json.fieldsDistinct_iff, List.forall_mem_map]
    exact forall₂_congr h
  have hkeys : (fieldsToJson fs).map (·.1) = fs.map (·.1.text) := by simp [fieldsToJson_eq]
  rw [Json.Distinct, hkeys, hfields]

theorem distinct_membersToJson {ts : List TypeExpr} (h : ∀ t ∈ ts, t.toJson.Distinct ↔ t.Apart) :
    (Json.arr (membersToJson ts)).Distinct ↔ ∀ t ∈ ts, t.Apart := by
  rw [Json.Distinct, membersToJson_eq, Json.allDistinct_iff, List.forall_mem_map]
  exact forall₂_congr h

theorem distinct_tagged {tag : String} {v : Json} : (Json.obj [(tag, v)]).Distinct ↔ v.Distinct := by
  simp [Json.Distinct, Json.FieldsDistinct]

mutual

theorem distinct_toJson : (t : TypeExpr) → (t.toJson.Distinct ↔ t.Apart)
  | .primitive p => by
    rw [toJson, distinct_tagged]
    exact iff_of_true trivial (throughout_primitive p)
  | .object fs => by
    rw [toJson, distinct_tagged, distinct_fieldsToJson (distinct_fields fs), Apart, throughout_object]
    rfl
  | .named n => by
    rw [toJson, distinct_tagged]
    exact iff_of_true trivial (throughout_named n)
  | .array t => by rw [toJson, distinct_tagged, distinct_toJson t, Apart, Apart, throughout_array]
  | .map t => by rw [toJson, distinct_tagged, distinct_toJson t, Apart, Apart, throughout_map]
  | .union ts => by
    rw [toJson, distinct_tagged, distinct_membersToJson (distinct_members ts), Apart, throughout_union]
    rfl
  | .intersection ts => by
    rw [toJson, distinct_tagged, distinct_membersToJson (distinct_members ts), Apart, throughout_intersection]
    rfl
  | .unknown => iff_of_true trivial throughout_unknown

theorem distinct_members : (ts : List TypeExpr) → ∀ t ∈ ts, (t.toJson.Distinct ↔ t.Apart)
  | [] => nofun
  | t :: ts => by
    rw [List.forall_mem_cons]
    exact ⟨distinct_toJson t, distinct_members ts⟩

theorem distinct_fields : (fs : Fields) → ∀ f ∈ fs, (f.2.toJson.Distinct ↔ f.2.Apart)
  | [] => nofun
  | (_, t) :: fs => by
    rw [List.forall_mem_cons]
    exact ⟨distinct_toJson t, distinct_fields fs⟩

end

end TypeExpr

/-- A value under a few keys that are different. -/
theorem Json.distinct_obj {fs : List (String × Json)} (h : (fs.map (·.1)).Nodup) :
    (Json.obj fs).Distinct ↔ ∀ f ∈ fs, f.2.Distinct := by
  rw [Distinct, fieldsDistinct_iff]
  exact and_iff_right h

theorem Endpoint.distinct_toJson (op : Endpoint) : op.toJson.Distinct ↔
    (op.requestType.map (·.1.text)).Nodup ∧ ∀ t ∈ op.types, t.Apart := by
  have hnames (ns : List String) : Json.Distinct (.arr (ns.map .str)) := by
    refine Json.allDistinct_iff.mpr fun v hv => ?_
    obtain ⟨s, -, rfl⟩ := List.mem_map.mp hv
    exact trivial
  have hstr (s : String) : Json.Distinct (.str s) := trivial
  have hfields := TypeExpr.distinct_fieldsToJson fun f hf =>
    TypeExpr.distinct_fields op.requestType f hf
  rw [toJson, Json.distinct_obj (by simp)]
  simp only [List.forall_mem_cons, hnames, hstr, true_and, hfields, TypeExpr.distinct_toJson, types,
    List.forall_mem_append, List.forall_mem_map]
  simp [and_assoc]

theorem Definition.distinct_toJson (D : Definition) : D.toJson.Distinct ↔
    (∀ fs, D = .object fs → (fs.map (·.1.text)).Nodup) ∧
      (∀ vs, D = .enum vs → ∀ v ∈ vs, v.Distinct) ∧ ∀ t ∈ D.types, t.Apart := by
  have hkind (s : String) (v : Json) :
      (Json.obj [("kind", .str s), ("shape", v)]).Distinct ↔ v.Distinct := by
    rw [Json.distinct_obj (by simp), List.forall_mem_cons, List.forall_mem_singleton]
    exact and_iff_right trivial
  cases D with
  | object fs =>
    rw [toJson, hkind, TypeExpr.distinct_fieldsToJson (TypeExpr.distinct_fields fs), types,
      List.forall_mem_map]
    simp
  | enum vs =>
    rw [toJson, hkind, Json.Distinct, Json.allDistinct_iff]
    simp [types]
  | «alias» t =>
    rw [toJson, hkind, TypeExpr.distinct_toJson t]
    simp [types]

namespace Resolution

variable {R R' : Resolution}

theorem distinct_toJson (hnames : R.definitions.names.Nodup)
    (hvalues : ∀ n vs, (n, Definition.enum vs) ∈ R.definitions.entries → ∀ v ∈ vs, v.Distinct) :
    R.toJson.Distinct ↔ ∀ fs, R.HasFields fs → (fs.map (·.1.text)).Nodup := by
  have hentries : R.definitions.toJson.Distinct ↔
      ∀ e ∈ R.definitions.entries, e.2.toJson.Distinct := by
    rw [Registry.toJson, Json.distinct_obj (by rwa [List.map_map]), List.forall_mem_map]
  have hops : (Json.arr (R.operations.map Endpoint.toJson)).Distinct ↔ ∀ op ∈ R.operations,
      (op.requestType.map (·.1.text)).Nodup ∧ ∀ t ∈ op.types, t.Apart := by
    rw [Json.Distinct, Json.allDistinct_iff, List.forall_mem_map]
    exact forall₂_congr fun op _ => op.distinct_toJson
  rw [toJson, Json.distinct_obj (by simp), List.forall_mem_cons, List.forall_mem_singleton, hops,
    hentries]
  constructor
  · rintro ⟨hops, hentries⟩ fs hfs
    have hshape {n : String} {D : Definition} (he : (n, D) ∈ R.definitions.entries) :=
      D.distinct_toJson.mp (hentries (n, D) he)
    rcases hfs with hop | he | ⟨hop, ht, hfs⟩ | ⟨he, ht, hfs⟩
    · exact (hops _ hop).1
    · exact (hshape he).1 fs rfl
    · exact TypeExpr.throughout_iff.mp ((hops _ hop).2 _ ht) fs hfs
    · exact TypeExpr.throughout_iff.mp ((hshape he).2.2 _ ht) fs hfs
  · intro h
    refine ⟨fun op hop => ⟨h _ (.request hop), fun t ht => TypeExpr.throughout_iff.mpr fun fs hfs =>
        h fs (.inside (.operation hop ht hfs))⟩,
      fun ⟨n, D⟩ he => D.distinct_toJson.mpr ⟨?_, ?_, fun t ht => TypeExpr.throughout_iff.mpr fun fs hfs =>
        h fs (.inside (.definition he ht hfs))⟩⟩
    · rintro fs rfl
      exact h fs (.shape he)
    · rintro vs rfl
      exact hvalues n vs he

end Resolution

end ApiClient

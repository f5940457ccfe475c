import ApiClient.Proofs.Dumps
import ApiClient.Proofs.RequestFields
import ApiClient.Proofs.Upkeep

/-! From descriptions to dumps. Where a description says each thing once, no field map that it is resolved to
has a key twice, so that its dump tells all but what the keys of fields leave open. -/

namespace ApiClient

/-- No object has a property twice, no object in a value of an enum has a key twice, and the numbers in the
values are in normal form. -/
def Rules.once : Rules where
  properties := List.Nodup
  values vs := ∀ v ∈ vs, v.Distinct ∧ v.Normal

/-! ### Keys of objects -/

namespace Schema

open TypeExpr

variable {P : Fields → Prop} {combine : List TypeExpr → TypeExpr} {t : TypeExpr} {ts : List TypeExpr}

theorem throughout_collapse (hcombine : (combine ts).Throughout P ↔ ∀ t ∈ ts, t.Throughout P)
    (h : ∀ t ∈ ts, t.Throughout P) : (collapse combine ts).Throughout P :=
  everywhere_collapse nofun (fun _ => hcombine.mpr h) h

theorem throughout_orNull (h : t.Throughout P) : (orNull t).Throughout P :=
  everywhere_orNull nofun nofun nofun h

end Schema

namespace Outline

open TypeExpr

variable {ρ : String → Option String} {g : Registry}

theorem FieldsMean.keys {fs : List (FieldKey × Outline)} {gs : Fields} (h : FieldsMean ρ g fs gs) :
    gs.map (·.1) = fs.map (·.1) := by
  induction fs generalizing gs with
  | nil =>
    cases h
    rfl
  | cons f fs ih =>
    cases h with
    | cons _ h => rw [List.map_cons, List.map_cons, ih h]

theorem FieldsMean.nodup_keys {fs : List (FieldKey × Outline)} {gs : Fields} (h : FieldsMean ρ g fs gs)
    (hnames : (fs.map (·.1.name)).Nodup) : (gs.map (·.1)).Nodup := by
  rw [h.keys]
  refine List.Nodup.of_map FieldKey.name ?_
  rwa [List.map_map]

mutual

/-- The objects in a type have each key once if the outline that it stands for has each name once. -/
theorem Means.once {o : Outline} {t : TypeExpr} :
    o.Means ρ g t → o.Obeys .once → t.Throughout fun fs => (fs.map (·.1)).Nodup
  | .ref _, _ => throughout_named _
  | .enum _, _ => throughout_named _
  | .primitive, _ => throughout_primitive _
  | .unknown, _ => throughout_unknown
  | .array hm, ho => throughout_array.mpr (hm.once ho)
  | .map hm, ho => throughout_map.mpr (hm.once ho)
  | .object hm, ho => throughout_object.mpr ⟨hm.nodup_keys ho.1, hm.once ho.2⟩
  | .all hm, ho => Schema.throughout_collapse throughout_intersection (hm.once ho)
  | .any hm, ho => Schema.throughout_collapse throughout_union (hm.once ho)
  | .orNull hm, ho => Schema.throughout_orNull (hm.once ho)

theorem AllMean.once {os : List Outline} {ts : List TypeExpr} : AllMean ρ g os ts → ObeyAll .once os →
    ∀ t ∈ ts, t.Throughout fun fs => (fs.map (·.1)).Nodup
  | .nil, _ => nofun
  | .cons hm hms, ho => List.forall_mem_cons.mpr ⟨hm.once ho.1, hms.once ho.2⟩

theorem FieldsMean.once {fs : List (FieldKey × Outline)} {gs : Fields} :
    FieldsMean ρ g fs gs → ObeyFields .once fs →
      ∀ f ∈ gs, f.2.Throughout fun fs => (fs.map (·.1)).Nodup
  | .nil, _ => nofun
  | .cons hm hms, ho => List.forall_mem_cons.mpr ⟨hm.once ho.1, hms.once ho.2⟩

end

end Outline

theorem Shape.Means.once {ρ : String → Option String} {g : Registry} {s : Shape} {D : Definition}
    (h : s.Means ρ g D) (hs : s.Obeys .once) : (∀ fs, D = .object fs → (fs.map (·.1)).Nodup) ∧
      ∀ t ∈ D.types, t.Throughout fun fs => (fs.map (·.1)).Nodup := by
  cases h with
  | object hfields =>
    refine ⟨fun fs hfs => ?_, List.forall_mem_map.mpr (hfields.once hs.2)⟩
    obtain rfl := Definition.object.inj hfs
    exact hfields.nodup_keys hs.1
  | enum => exact ⟨nofun, nofun⟩
  | type ho => exact ⟨nofun, List.forall_mem_singleton.mpr (ho.once hs)⟩

/-! ### What a description is resolved to -/

/-- The values of the enums in a registry. -/
theorem Rules.values_stable (K : Rules) :
    K.Stable fun g => ∀ n vs, (n, Definition.enum vs) ∈ g.entries → K.values vs where
  enum g key parent vs _ _ hvs hg n ws hws := by
    obtain ⟨k, -, ⟨-, hr⟩ | ⟨-, hr⟩⟩ :=
      Registry.register_cases g (Schema.enumName key parent) (.enum vs)
    · rw [hr] at hws
      exact hg n ws hws
    · rw [hr] at hws
      rcases Registry.mem_insertEntry hws with heq | hws
      · obtain rfl := Definition.enum.inj (Prod.mk.inj heq).2
        exact hvs
      · exact hg n ws hws
  promise g c _ hg n vs hvs := by
    obtain ⟨k, -, -, hr⟩ := Registry.reserve_cases g (capitalCase c)
    rw [hr] at hvs
    exact hg n vs hvs
  fill g c name D _ _ hD hg n vs hvs := by
    rcases Registry.mem_insertEntry hvs with heq | hvs
    · exact hD vs (Prod.mk.inj heq).2.symm
    · exact hg n vs hvs

theorem Ask.Types.keys {Q : Ask → TypeExpr → Prop} {table : List (FieldKey × Ask)} {fields : Fields}
    (h : Types Q table fields) : fields.map (·.1) = table.map (·.1) := by
  induction h with
  | nil => rfl
  | cons hf _ ih => rw [List.map_cons, List.map_cons, hf.1, ih]

open Resolver Pass TypeExpr

namespace Document.Obeys

variable {K : Rules} {d : Document} {R : Resolution}

/-- Each type in an operation stands for an outline that obeys the rules, and no argument has the key of
another one. -/
theorem operation (hd : d.Obeys K) (h : d.resolve = .ok R) {op : Endpoint} (hop : op ∈ R.operations) :
    (op.requestType.map (·.1)).Nodup ∧
      ∀ t ∈ op.types, ∃ (ρ : String → Option String) (g : Registry) (o : Outline),
        o.Obeys K ∧ o.Means ρ g t := by
  -- Whether an outline obeys the rules has nothing to do with the pass, so it is carried along with what
  -- the outline means.
  have hruns := endpoints_runs (d := d)
    (Q := fun a t z => a.outline.Obeys K ∧ a.outline.Means z.name? z.registry t)
    (fun _ _ _ _ _ hp => hp.toFollows) fun site hsite a ha =>
      (a.resolve_runs completes_enumStable d.components.schemas fun r _ =>
        reference_named _ .empty { registry := .empty } r).mono fun t z ht =>
          ⟨(ha.obeys hd.components (hd.sites site hsite)).outline, ht⟩
  obtain ⟨eps, q, hrun, -, hperm⟩ := resolve_eq_ok h
  obtain ⟨-, -, heps⟩ := hruns.ok (.refl (.start .empty)) hrun
  obtain ⟨site, -, hsite⟩ := exists_of_forall₂ (heps q (.refl q)) (hperm.mem_iff.mp hop)
  refine ⟨?_, fun t ht => ?_⟩
  · obtain ⟨reading, requestType, responseType, -, rfl, htypes, -⟩ := hsite.endpoint
    show (requestType.map (·.1)).Nodup
    rw [Ask.Types.keys htypes]
    exact Assoc.nodup_ofList _
  · obtain ⟨a, ha⟩ := hsite.exists_ask ht
    exact ⟨q.name?, q.registry, a.outline, ha⟩

/-- Each shape is an enum whose values obey the rules, or comes of a component that obeys them. -/
theorem definition (hd : d.Obeys K) (h : d.resolve = .ok R) {n : String} {D : Definition}
    (hD : (n, D) ∈ R.definitions.entries) :
    ∃ (ρ : String → Option String) (g : Registry) (s : Shape), s.Obeys K ∧ s.Means ρ g D := by
  obtain ⟨q, hq, hsound, hdone, -⟩ := d.resolve_sound h
  have hvalues := hd.resolve_preserves K.values_stable nofun h
  rw [← hq] at hdone hD hvalues
  have hget := hsound.ordered.get?_of_mem hD
  rcases (hsound.naming hdone).entries n D hget with ⟨vs, rfl⟩ | ⟨r, hr⟩
  · exact ⟨q.name?, q.registry, .enum vs, hvalues n vs hD, .enum⟩
  · obtain ⟨c, target, D', hpoints, -, hD', hshape⟩ := (hsound.naming hdone).component r n hr
    obtain rfl := Option.some.inj (hget.symm.trans hD')
    have htarget := hd.components.schemas _ (Assoc.mem_of_lookup hpoints.2)
    exact ⟨q.name?, q.registry, target.shape, RefOr.shape_obeys htarget, hshape⟩

/-- A description that says each thing once is resolved to data in which no key stands twice. -/
theorem valid (hd : d.Obeys .once) (h : d.resolve = .ok R) : R.Valid where
  once fs hfs := by
    rcases hfs with hop | hmem | ⟨hop, ht, hfs⟩ | ⟨hmem, ht, hfs⟩
    · exact (hd.operation h hop).1
    · obtain ⟨ρ, g, s, hs, hmeans⟩ := hd.definition h hmem
      exact (hmeans.once hs).1 fs rfl
    · obtain ⟨ρ, g, o, ho, hmeans⟩ := (hd.operation h hop).2 _ ht
      exact throughout_iff.mp (hmeans.once ho) fs hfs
    · obtain ⟨ρ, g, s, hs, hmeans⟩ := hd.definition h hmem
      exact throughout_iff.mp ((hmeans.once hs).2 _ ht) fs hfs
  values := hd.resolve_preserves Rules.once.values_stable nofun h

theorem distinct_toJson (hd : d.Obeys .once) (h : d.resolve = .ok R) :
    R.toJson.Distinct ↔ ∀ fs, R.HasFields fs → (fs.map (·.1.text)).Nodup := by
  obtain ⟨q, hq, hsound, -⟩ := d.resolve_sound h
  have hordered : R.definitions.Ordered := hq ▸ hsound.ordered
  exact Resolution.distinct_toJson hordered.names_nodup fun n vs hvs v hv =>
    ((hd.valid h).values n vs hvs v hv).1

end Document.Obeys

/-- The dump of a resolved description has no key twice exactly if no field map has a required field whose
name is that of an optional one beside it with a question mark. Two descriptions have one dump exactly if
they are resolved to the same, but for required fields that are taken for optional ones. Equality is that of
the ordered data here: field maps and values whose keys stand in another order are different, although the
registry takes them for the same. -/
theorem Document.resolve_dumps {d d' : Document} {R R' : Resolution} (h : d.resolve = .ok R)
    (h' : d'.resolve = .ok R') (hd : d.Obeys .once) (hd' : d'.Obeys .once) :
    (R.toJson.Distinct ↔ ∀ fs, R.HasFields fs → ∀ n, ⟨n ++ "?", false⟩ ∈ fs.map (·.1) →
      ⟨n, true⟩ ∉ fs.map (·.1)) ∧
    (R.toJson.pretty = R'.toJson.pretty ↔ R.reread = R'.reread) ∧
    ((∀ fs, R.HasFields fs ∨ R'.HasFields fs → ∀ f ∈ fs, ¬ f.1.Marked) →
      R.toJson.pretty = R'.toJson.pretty → R = R') := by
  have hR := hd.valid h
  have hR' := hd'.valid h'
  have hreserved : R.definitions.reserved = R'.definitions.reserved := by
    obtain ⟨-, -, -, hdone, -⟩ := d.resolve_sound h
    obtain ⟨-, -, -, hdone', -⟩ := d'.resolve_sound h'
    exact hdone.trans hdone'.symm
  have hdump : R.toJson.pretty = R'.toJson.pretty ↔ R.reread = R'.reread := by
    rw [TypeScript.pretty_inj hR.toJson_normal hR'.toJson_normal,
      Resolution.toJson_eq_iff hreserved]
  refine ⟨?_, hdump, fun hplain heq => ?_⟩
  · rw [hd.distinct_toJson h]
    exact forall₂_congr fun fs hfs => Fields.nodup_texts_iff (hR.once fs hfs)
  · rw [← Resolution.reread_of_plain fun fs hfs => hplain fs (.inl hfs), hdump.mp heq,
      Resolution.reread_of_plain fun fs hfs => hplain fs (.inr hfs)]

/-! ### Two descriptions with one dump -/

/-- One operation that answers an object with these properties. -/
def doneDocument (names required : List String) : Document where
  paths := [("/notes", {
    operation? := fun m => if m = .get then some {
      operationId := some "notes"
      responses := [("200", .inline ⟨[("application/json", some (.inline {
        properties := names.map fun n => (n, .inline { type := some (.single "boolean") })
        required }))]⟩)] }
      else none })]

/-- The keys of the object that an operation answers. -/
def Endpoint.answerKeys (op : Endpoint) : List FieldKey :=
  match op.responseType with
  | .object fs => fs.map (·.1)
  | _ => []

namespace Document

theorem doneDocument_obeys {names : List String} (hnames : names.Nodup) (required : List String) :
    (doneDocument names required).Obeys .once where
  components := by constructor <;> simp [doneDocument]
  sites := by
    have hfields (ns : List String) : Schema.ObeyFields .once
        (ns.map fun n => (n, .inline { type := some (.single "boolean") })) := by
      induction ns with
      | nil => exact trivial
      | cons n ns ih =>
        rw [List.map_cons, Schema.ObeyFields]
        exact ⟨by simp [Schema.ObeysOf, Schema.Obeys, Schema.ObeyFields, Schema.ObeysItems,
          Schema.ObeysAdditional, Schema.ObeyAll, Rules.once], ih⟩
    intro site hsite
    simp [doneDocument, Document.sites, PathItem.operations, Method.all] at hsite
    subst hsite
    constructor
    case responses =>
      rw [List.forall_mem_singleton]
      intro b hb
      obtain rfl := RefOr.inline.inj hb
      simpa [Body.Obeys, Schema.ObeysItems, Schema.ObeysOf, Schema.Obeys, Schema.ObeysAdditional, Schema.ObeyAll,
        Rules.once, Function.comp_def] using ⟨hnames, hfields names⟩
    all_goals simp [Rules.once]

theorem resolve_of_answerKeys {d : Document} {keys : List FieldKey} (hkeys : keys ≠ [])
    (h : d.resolve.toOption.map (fun R => R.operations.map (·.answerKeys)) = some [keys]) :
    ∃ R fs, d.resolve = .ok R ∧ R.HasFields fs ∧ fs.map (·.1) = keys := by
  obtain ⟨R, hR, hanswers⟩ := resolve_of_map h
  obtain ⟨op, hop, hanswer⟩ := List.mem_map.mp (hanswers ▸ List.mem_singleton_self keys)
  have huses := R.uses_answer hop
  rw [Endpoint.answerKeys] at hanswer
  split at hanswer
  · rename_i fs hfs
    exact ⟨R, fs, hR, .inside (hfs ▸ huses), hanswer⟩
  · exact absurd hanswer.symm hkeys

theorem doneDocument_fields : ∃ R fs,
    (doneDocument ["done?", "done"] ["done?"]).resolve = .ok R ∧ R.HasFields fs ∧
      fs.map (·.1) = [⟨"done?", false⟩, ⟨"done", true⟩] := by
  have hkeys : (doneDocument ["done?", "done"] ["done?"]).resolve.toOption.map (fun R =>
      R.operations.map (·.answerKeys)) = some [[⟨"done?", false⟩, ⟨"done", true⟩]] := by
    decide +kernel
  exact resolve_of_answerKeys (List.cons_ne_nil _ _) hkeys

/-- A required field that ends in a question mark, alone, and the optional one that it is taken for. -/
theorem doneDocument_dumps : ∃ R R', (doneDocument ["done?"] ["done?"]).resolve = .ok R ∧
    (doneDocument ["done"] []).resolve = .ok R' ∧ R.toJson.pretty = R'.toJson.pretty ∧
    R.operations.map (·.answerKeys) = [[⟨"done?", false⟩]] ∧
    R'.operations.map (·.answerKeys) = [[⟨"done", true⟩]] := by
  have hdumps : (doneDocument ["done?"] ["done?"]).resolve.toOption.map (·.toJson.pretty) =
      (doneDocument ["done"] []).resolve.toOption.map (·.toJson.pretty) := by decide +kernel
  have hkeys : (doneDocument ["done?"] ["done?"]).resolve.toOption.map (fun R =>
      R.operations.map (·.answerKeys)) = some [[⟨"done?", false⟩]] := by decide +kernel
  have hkeys' : (doneDocument ["done"] []).resolve.toOption.map (fun R =>
      R.operations.map (·.answerKeys)) = some [[⟨"done", true⟩]] := by decide +kernel
  obtain ⟨R, h, hkeys⟩ := resolve_of_map hkeys
  obtain ⟨R', h', hkeys'⟩ := resolve_of_map hkeys'
  rw [h, h'] at hdumps
  exact ⟨R, R', h, h', Option.some.inj hdumps, hkeys, hkeys'⟩

theorem resolve_dumps_done :
    (∃ R, (doneDocument ["done?", "done"] ["done?"]).resolve = .ok R ∧ ¬ R.toJson.Distinct) ∧
    ∃ R R', (doneDocument ["done?"] ["done?"]).resolve = .ok R ∧
      (doneDocument ["done"] []).resolve = .ok R' ∧ R.reread = R'.reread := by
  constructor
  · obtain ⟨R, fs, h, hfs, hkeys⟩ := doneDocument_fields
    have hd : (doneDocument ["done?", "done"] ["done?"]).Obeys .once := doneDocument_obeys (by decide) _
    exact ⟨R, h, fun hdistinct => (resolve_dumps h h hd hd).1.mp hdistinct fs hfs "done"
      (by simp [hkeys]) (by simp [hkeys])⟩
  · obtain ⟨R, R', h, h', hdumps, -, -⟩ := doneDocument_dumps
    have hd : (doneDocument ["done?"] ["done?"]).Obeys .once := doneDocument_obeys (by decide) _
    have hd' : (doneDocument ["done"] []).Obeys .once := doneDocument_obeys (by decide) _
    exact ⟨R, R', h, h', (resolve_dumps h h' hd hd').2.1.mp hdumps⟩

/-- Beside each other the two fields make the dump repeat a key, and either one alone makes the dump of the
other. -/
theorem doneDocument_confused :
    (∃ R, (doneDocument ["done?", "done"] ["done?"]).resolve = .ok R ∧ ¬ R.toJson.Distinct) ∧
    ∃ R R', (doneDocument ["done?"] ["done?"]).resolve = .ok R ∧
      (doneDocument ["done"] []).resolve = .ok R' ∧ R.toJson.pretty = R'.toJson.pretty ∧ R ≠ R' := by
  constructor
  · obtain ⟨R, fs, h, hfs, hkeys⟩ := doneDocument_fields
    have hd : (doneDocument ["done?", "done"] ["done?"]).Obeys .once := doneDocument_obeys (by decide) _
    refine ⟨R, h, fun hdistinct => ?_⟩
    have htexts := (hd.distinct_toJson h).mp hdistinct fs hfs
    have hapart := (Fields.nodup_texts_iff ((hd.valid h).once fs hfs)).mp htexts
    exact hapart "done" (by simp [hkeys]) (by simp [hkeys])
  · obtain ⟨R, R', h, h', hdumps, hkeys, hkeys'⟩ := doneDocument_dumps
    refine ⟨R, R', h, h', hdumps, ?_⟩
    rintro rfl
    simp [hkeys] at hkeys'

end Document

end ApiClient

import ApiClient.Proofs.Arguments
import ApiClient.Proofs.Occurrences

/-! Arguments of one name. A function takes two arguments of one name exactly if two of its parameters, or
a parameter and the body, are given the same name as arguments; and the type of the arguments has a
property twice exactly if two fields are given the same name. -/

namespace ApiClient

namespace Parameter

variable {p q : Parameter} {ps : List Parameter}

/-- Where a parameter stands: no two of one operation stand in the same place under the same name. -/
def slot (p : Parameter) : String × String := (p.name, p.location)

theorem samePlace_iff : p.samePlace q = true ↔ p.slot = q.slot := by
  rw [samePlace, Bool.and_eq_true, beq_iff_eq, beq_iff_eq, slot, slot, Prod.mk.injEq]

theorem slots_merge (p : Parameter) (ps : List Parameter) :
    (p.merge ps).map slot = if p.slot ∈ ps.map slot then ps.map slot else ps.map slot ++ [p.slot] := by
  induction ps with
  | nil => simp [merge]
  | cons q ps ih =>
    rw [merge]
    by_cases hsame : p.slot = q.slot
    · rw [if_pos (samePlace_iff.mpr hsame)]
      simp [hsame]
    · rw [if_neg (mt samePlace_iff.mp hsame), List.map_cons, ih]
      simp only [List.map_cons, List.mem_cons, hsame, false_or]
      split_ifs <;> rfl

theorem nodup_slots_mergeAll (ps : List Parameter) : ((mergeAll ps).map slot).Nodup := by
  induction ps using List.reverseRecOn with
  | nil => exact .nil
  | append_singleton ps p ih =>
    rw [mergeAll, List.foldl_append]
    show ((p.merge (mergeAll ps)).map slot).Nodup
    rw [slots_merge]
    split_ifs with hmem
    · exact ih
    · rw [List.nodup_append_comm, List.singleton_append]
      exact List.nodup_cons.mpr ⟨hmem, ih⟩

/-- The request function takes the parameter. -/
def Taken (p : Parameter) : Prop := (Place.ofLocation? p.location).isSome ∧ p.name ≠ ""

instance (p : Parameter) : Decidable p.Taken := inferInstanceAs (Decidable (_ ∧ _))

/-- The four groups hold the parameters that have a place, each of them once. -/
theorem groups_perm (ps : List Parameter) :
    (group .path ps ++ group .query ps ++ group .body ps ++ group .form ps).Perm
      (ps.filter fun p => (Place.ofLocation? p.location).isSome) := by
  induction ps with
  | nil => exact .nil
  | cons p ps ih =>
    simp only [group, List.filter_cons] at ih ⊢
    cases hplace : Place.ofLocation? p.location with
    | none => simpa using ih
    | some place =>
      -- the parameter comes first in its group, and goes from there to the front
      cases place with
      | path => simpa using ih.cons p
      | query =>
        simpa using ((List.perm_middle.append_right _).append_right _).trans (ih.cons p)
      | body => simpa using (List.perm_middle.append_right _).trans (ih.cons p)
      | form => simpa using List.perm_middle.trans (ih.cons p)

theorem filter_name_groups_perm (ps : List Parameter) :
    ((group .path ps ++ group .query ps ++ group .body ps ++ group .form ps).filter
      fun p => p.name ≠ "").Perm (ps.filter (·.Taken)) := by
  refine ((groups_perm ps).filter _).trans (List.Perm.of_eq ?_)
  rw [List.filter_filter]
  exact List.filter_congr fun p _ => by simp [Taken, and_comm]

end Parameter

theorem Resolver.nodup_parameters {c : Components} {site : Site} {ps : List Parameter}
    (h : parameters c site = pure ps) : (ps.map Parameter.slot).Nodup := by
  rw [parameters_eq] at h
  have hread := lift_eq_pure h
  cases hfollowed : followed c site with
  | error e =>
    rw [hfollowed] at hread
    cases hread
  | ok qs =>
    rw [hfollowed] at hread
    obtain rfl := Except.ok.inj hread
    exact Parameter.nodup_slots_mergeAll qs

namespace Site

variable (site : Site) (rename : String → String) (ps : List Parameter) (body : List Contributor)

/-- No two parameters that are taken have one name as arguments, and none has the name of the body. -/
structure ArgumentsApart : Prop where
  parameters : ∀ p ∈ ps, ∀ q ∈ ps, p.Taken → q.Taken → rename p.name = rename q.name → p = q
  body : body ≠ [] → ∀ p ∈ ps, p.Taken → rename p.name ≠ rename site.bodyKey

/-- What gives fields of one name as arguments gives the same field. -/
def PropertiesApart : Prop :=
  ∀ k ∈ Contributor.all ps body, ∀ l ∈ Contributor.all ps body,
    rename (k.key site).name = rename (l.key site).name → k.key site = l.key site

theorem bodyKey_ne_empty : site.bodyKey ≠ "" := by
  intro h
  have hlength := congrArg String.length h
  rw [bodyKey, String.length_append] at hlength
  exact absurd hlength (by simp)

end Site

namespace Endpoint.Gathers

variable {c : Components} {site : Site} {p : Pass} {ps : List Parameter} {body : List Contributor}
  {op : Endpoint} {rename : String → String}

/-- The arguments are the parameters that are taken, and the body. -/
theorem arguments_perm (h : op.Gathers c site p ps body) :
    (op.arguments rename).Perm ((ps.filter (·.Taken)).map (fun p => rename p.name) ++
      if body.isEmpty then [] else [rename site.bodyKey]) := by
  let groups := Parameter.group .path ps ++ Parameter.group .query ps ++ Parameter.group .body ps ++
    Parameter.group .form ps
  let key := if body.isEmpty then [] else [site.bodyKey]
  have hkey : TypeScript.given key = key := by
    simp only [key, TypeScript.given]
    split_ifs <;> simp [site.bodyKey_ne_empty]
  have hnames : (op.pathParams ++ op.queryParams ++ op.bodyParams ++ op.formParams).Perm
      (groups.map (·.name) ++ key) := by
    rw [h.pathParams, h.queryParams, h.bodyParams, h.formParams]
    simp only [groups, List.map_append, List.append_assoc]
    exact ((List.perm_append_comm.append_left _).append_left _).append_left _
  have hgiven : TypeScript.given (groups.map (·.name) ++ key) =
      (groups.filter fun p => p.name ≠ "").map (·.name) ++ key := by
    rw [TypeScript.given, List.filter_append, List.filter_map]
    exact congrArg _ hkey
  have hkeyed : key.map rename = if body.isEmpty then [] else [rename site.bodyKey] := by
    simp only [key]
    split_ifs <;> rfl
  calc op.arguments rename
    _ |>.Perm ((TypeScript.given (groups.map (·.name) ++ key)).map rename) :=
      (hnames.filter _).map rename
    _ |>.Perm (((ps.filter (·.Taken)).map (·.name) ++ key).map rename) := by
      rw [hgiven]
      exact (((Parameter.filter_name_groups_perm ps).map _).append_right key).map rename
    _ = _ := by
      rw [List.map_append, List.map_map, hkeyed]
      rfl

theorem nodup_arguments_iff (h : op.Gathers c site p ps body) :
    (op.arguments rename).Nodup ↔ site.ArgumentsApart rename ps body := by
  have htaken : (ps.filter (·.Taken)).Nodup :=
    (List.Nodup.of_map _ (Resolver.nodup_parameters h.readsParameters)).filter _
  rw [h.arguments_perm.nodup_iff, List.nodup_append, List.nodup_map_iff_inj_on htaken]
  simp only [List.mem_filter, decide_eq_true_eq, List.mem_map, and_imp]
  constructor
  · rintro ⟨hparameters, -, hbody⟩
    refine ⟨fun p hp q hq hp' hq' => hparameters p hp hp' q hq hq', fun hne p hp hp' => ?_⟩
    refine hbody _ ⟨p, ⟨hp, hp'⟩, rfl⟩ _ ?_
    simp [hne]
  · rintro ⟨hparameters, hbody⟩
    refine ⟨fun p hp hp' q hq hq' => hparameters p hp q hq hp' hq', ?_, ?_⟩
    · split_ifs <;> simp
    · rintro _ ⟨p, ⟨hp, hp'⟩, rfl⟩ b hb
      split_ifs at hb with hempty
      · cases hb
      · obtain rfl := List.mem_singleton.mp hb
        exact hbody (by simpa using hempty) p hp hp'

/-- The fields are those that are given. -/
theorem mem_keys (h : op.Gathers c site p ps body) {key : FieldKey} :
    key ∈ op.requestType.map (·.1) ↔ ∃ k ∈ Contributor.all ps body, k.key site = key := by
  obtain ⟨types, q, hrun, hfields⟩ := h.fields
  have hlength : ((Contributor.all ps body).map (Contributor.key site)).length ≤ types.length := by
    rw [List.length_map, (Resolver.mapM_splits hrun).length_eq]
  have hgiven : key ∈ (Assoc.ofList (((Contributor.all ps body).map (Contributor.key site)).zip
      types)).map (·.1) ↔ key ∈ (((Contributor.all ps body).map (Contributor.key site)).zip
      types).map (·.1) := Assoc.mem_keys_ofList
  rw [List.map_fst_zip hlength, List.mem_map, List.mem_map] at hgiven
  rw [← hgiven, List.mem_map]
  simp only [Prod.exists, exists_and_right, exists_eq_right, hfields, Assoc.mem_ofList_iff]

theorem nodup_properties_iff (h : op.Gathers c site p ps body) :
    (op.properties rename).Nodup ↔ site.PropertiesApart rename ps body := by
  have hproperties : op.properties rename =
      (op.requestType.map (·.1)).map fun key => rename key.name := by
    rw [properties, List.map_map]
    rfl
  rw [hproperties, List.nodup_map_iff_inj_on h.once]
  simp only [h.mem_keys]
  constructor
  · intro hinj k hk l hl
    exact hinj _ ⟨k, hk, rfl⟩ _ ⟨l, hl, rfl⟩
  · rintro hapart _ ⟨k, hk, rfl⟩ _ ⟨l, hl, rfl⟩
    exact hapart k hk l hl

end Endpoint.Gathers

theorem Document.exists_makes {d : Document} {R : Resolution} (h : d.resolve = .ok R)
    {op : Endpoint} (hop : op ∈ R.operations) : ∃ site p, d.Makes site p op := by
  obtain ⟨eps, q, hrun, -, hsorted⟩ := resolve_eq_sorted h
  rw [hsorted, List.mem_mergeSort] at hop
  obtain ⟨site, -, before, after, bs, p, q', hsites, hbefore, hmade⟩ :=
    exists_of_forall₂ (Resolver.mapM_splits hrun) hop
  exact ⟨site, p, before, after, bs, q', hsites, hbefore, hmade⟩

theorem Document.Makes.gathers {d : Document} {site : Site} {p : Pass} {op : Endpoint}
    (h : d.Makes site p op) : ∃ ps body, op.Gathers d.components site p ps body := by
  obtain ⟨before, after, eps, q, -, -, hmade⟩ := h
  exact Resolver.endpoint_gathers hmade

/-- The arguments of a request function have different names exactly if the parameters and the body of
its operation are given different names, and so have the properties of their type if the fields are. -/
theorem Document.resolve_clashes {d : Document} {R : Resolution} (h : d.resolve = .ok R)
    {op : Endpoint} (hop : op ∈ R.operations) :
    ∃ site p ps body, d.Makes site p op ∧ op.Gathers d.components site p ps body ∧
      (∀ g, TypeScript.argumentTypes g op =
        TypeScript.propertyTexts g (op.properties argumentName) op.requestType) ∧
      ((TypeScript.argumentNames op).Nodup ↔ site.ArgumentsApart argumentName ps body) ∧
      ((op.properties argumentName).Nodup ↔ site.PropertiesApart argumentName ps body) := by
  obtain ⟨site, p, hmakes⟩ := exists_makes h hop
  obtain ⟨ps, body, hgathers⟩ := hmakes.gathers
  exact ⟨site, p, ps, body, hmakes, hgathers, fun g => TypeScript.argumentTypes_eq g op,
    hgathers.nodup_arguments_iff, hgathers.nodup_properties_iff⟩

theorem resolve_clashes_lines :
    ∃ R op, linesDocument.resolve = .ok R ∧ op ∈ R.operations ∧
      TypeScript.argumentNames op = ["noteId", "dryRun", "addLineRequest"] ∧
      ∃ site p ps body, linesDocument.Makes site p op ∧
        op.Gathers linesDocument.components site p ps body ∧
        (∀ g, TypeScript.argumentTypes g op =
          TypeScript.propertyTexts g (op.properties argumentName) op.requestType) ∧
        ((TypeScript.argumentNames op).Nodup ↔ site.ArgumentsApart argumentName ps body) ∧
        ((op.properties argumentName).Nodup ↔ site.PropertiesApart argumentName ps body) := by
  have hrun : linesDocument.resolve.toOption.map (fun R => R.operations.map
      TypeScript.argumentNames) = some [["noteId", "dryRun", "addLineRequest"]] := by
    decide +kernel
  obtain ⟨R, h, hoperations⟩ := Document.resolve_of_map hrun
  obtain ⟨op, hop, harguments⟩ := List.mem_map.mp (hoperations ▸ List.mem_singleton_self _)
  exact ⟨R, op, h, hop, harguments, Document.resolve_clashes h hop⟩

/-- A parameter of the path and one of the query with the same name. -/
def namesakesDocument : Document where
  paths := [("/users/{id}", {
    operation? := fun m => if m = .get then some {
      operationId := some "findUser"
      parameters := [
        .inline { name := "id", location := "path", required := true, type := some "string" },
        .inline { name := "id", location := "query", type := some "string" }] }
      else none })]

theorem resolve_namesakes :
    ∃ R op, namesakesDocument.resolve = .ok R ∧ op ∈ R.operations ∧
      TypeScript.requestArguments R.definitions op =
        "\x7b id, id \x7d: \x7b 'id': string; 'id'?: string; \x7d" ∧
      ¬ (TypeScript.argumentNames op).Nodup ∧ ¬ (op.properties argumentName).Nodup := by
  have hrun : namesakesDocument.resolve.toOption.map (fun R => R.operations.map fun op =>
      (TypeScript.argumentNames op, op.properties argumentName,
        TypeScript.requestArguments R.definitions op)) =
      some [(["id", "id"], ["id", "id"],
        "\x7b id, id \x7d: \x7b 'id': string; 'id'?: string; \x7d")] := by
    decide +kernel
  obtain ⟨R, h, hoperations⟩ := Document.resolve_of_map hrun
  obtain ⟨op, hop, hread⟩ := List.mem_map.mp (hoperations ▸ List.mem_singleton_self _)
  simp only [Prod.mk.injEq] at hread
  obtain ⟨harguments, hproperties, htext⟩ := hread
  refine ⟨R, op, h, hop, htext, ?_, ?_⟩
  · rw [harguments]
    decide
  · rw [hproperties]
    decide

end ApiClient

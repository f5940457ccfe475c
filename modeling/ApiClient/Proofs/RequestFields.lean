import ApiClient.Proofs.Listing
import ApiClient.Proofs.Values

/-! The fields of a request. Parameters and media types give their types to fields one after the other,
the last one that gives a field stays, and the names of the fields are the names in the groups of the
endpoint. -/

namespace ApiClient

namespace Assoc

variable {κ α : Type} {k j : κ} {a b : α} {pairs table : List (κ × α)}

/-- The last pair with this key has this value. -/
def Last (pairs : List (κ × α)) (k : κ) (a : α) : Prop :=
  ∃ before after, pairs = before ++ (k, a) :: after ∧ ∀ e ∈ after, e.1 ≠ k

theorem not_last_nil : ¬ Last [] k a := by
  rintro ⟨before, after, h, -⟩
  simp at h

theorem last_append_singleton :
    Last (pairs ++ [(j, b)]) k a ↔ k = j ∧ a = b ∨ k ≠ j ∧ Last pairs k a := by
  constructor
  · rintro ⟨before, after, h, hafter⟩
    rcases List.eq_nil_or_concat after with rfl | ⟨after, e, rfl⟩
    · obtain ⟨-, h⟩ := List.append_inj' h rfl
      obtain ⟨rfl, rfl⟩ := Prod.mk.inj (List.singleton_inj.mp h)
      exact .inl ⟨rfl, rfl⟩
    · rw [List.concat_eq_append, ← List.cons_append, ← List.append_assoc] at h
      obtain ⟨rfl, he⟩ := List.append_inj' h rfl
      obtain rfl := List.singleton_inj.mp he
      simp only [List.concat_eq_append, List.forall_mem_append] at hafter
      exact .inr ⟨(hafter.2 (j, b) List.mem_cons_self).symm, before, after, rfl, hafter.1⟩
  · rintro (⟨rfl, rfl⟩ | ⟨hk, before, after, rfl, hafter⟩)
    · exact ⟨pairs, [], rfl, by simp⟩
    · refine ⟨before, after ++ [(j, b)], by simp, ?_⟩
      rw [List.forall_mem_append]
      exact ⟨hafter, by simpa using hk.symm⟩

variable [BEq κ]

theorem ofList_append_singleton (pairs : List (κ × α)) (k : κ) (a : α) :
    ofList (pairs ++ [(k, a)]) = put k a (ofList pairs) := by
  rw [ofList, List.foldl_append]
  rfl

variable [LawfulBEq κ]

theorem mem_put_iff (h : (table.map (·.1)).Nodup) :
    (k, a) ∈ put j b table ↔ k = j ∧ a = b ∨ k ≠ j ∧ (k, a) ∈ table := by
  induction table with
  | nil => simp [put]
  | cons e table ih =>
    obtain ⟨i, x⟩ := e
    obtain ⟨hnot, hrest⟩ := List.nodup_cons.mp h
    rw [put]
    by_cases hi : i = j
    · subst hi
      rw [if_pos (beq_self_eq_true i), List.mem_cons, List.mem_cons]
      by_cases hk : k = i
      · subst hk
        have hnone : (k, a) ∉ table := fun hmem => hnot (List.mem_map.mpr ⟨_, hmem, rfl⟩)
        simp [hnone]
      · simp [hk]
    · rw [if_neg (by simpa using hi), List.mem_cons, List.mem_cons, ih hrest]
      by_cases hk : k = j
      · subst hk
        simp [Ne.symm hi]
      · simp [hk]

theorem nodup_ofList (pairs : List (κ × α)) : ((ofList pairs).map (·.1)).Nodup := by
  induction pairs using List.reverseRecOn with
  | nil => exact .nil
  | append_singleton pairs e ih =>
    rw [ofList_append_singleton]
    exact nodup_put e.1 e.2 ih

/-- Of the pairs with one key the last one is in the table. -/
theorem mem_ofList_iff : (k, a) ∈ ofList pairs ↔ Last pairs k a := by
  induction pairs using List.reverseRecOn with
  | nil => exact iff_of_false List.not_mem_nil not_last_nil
  | append_singleton pairs e ih =>
    rw [ofList_append_singleton, mem_put_iff (nodup_ofList pairs), last_append_singleton, ih]

theorem mem_keys_ofList : k ∈ (ofList pairs).map (·.1) ↔ k ∈ pairs.map (·.1) := by
  induction pairs using List.reverseRecOn with
  | nil => rfl
  | append_singleton pairs e ih =>
    rw [ofList_append_singleton, mem_keys_put, ih]
    simp [or_comm]

end Assoc

/-! ### What gives a field -/

/-- What gives a field to a request: a parameter, a media type of the body, or a schema that the body
refers to. -/
inductive Contributor where
  | parameter (p : Parameter)
  | content (schema : Option (RefOr Schema))
  | schema (reference : String)

namespace Contributor

variable {c : Components} {site : Site}

/-- A parameter that is not required gives an optional field; a body gives a required one. -/
def key (site : Site) : Contributor → FieldKey
  | .parameter p => ⟨p.name, !p.required⟩
  | .content _ => ⟨site.bodyKey, false⟩
  | .schema _ => ⟨site.bodyKey, false⟩

@[simp] theorem key_parameter (p : Parameter) :
    (parameter p).key site = ⟨p.name, !p.required⟩ := rfl

def type (c : Components) (site : Site) : Contributor → Resolver TypeExpr
  | .parameter p => Resolver.parameterType c p
  | .content s => Resolver.schema? c.schemas s site.bodyKey site.bodyKey
  | .schema r => Resolver.reference c.schemas r

/-- The outline that the type is asked for. -/
def ask (site : Site) : Contributor → Ask
  | .parameter p => p.ask
  | .content s => ⟨Schema.outlineOf? s, site.bodyKey, site.bodyKey⟩
  | .schema r => ⟨.ref r, site.bodyKey, site.bodyKey⟩

def field (site : Site) (k : Contributor) : FieldKey × Ask := (k.key site, k.ask site)

theorem type_eq (k : Contributor) : k.type c site = (k.ask site).resolve c.schemas := by
  cases k with
  | parameter p => exact Resolver.parameterType_eq p
  | content s => exact Resolver.schema?_eq c.schemas s site.bodyKey site.bodyKey
  | schema r => rw [type, ask, Ask.resolve, Outline.resolve]

end Contributor

namespace Site

variable (c : Components) (site : Site)

/-- A body gives one field if it is a reference to a schema, else one for each of its media types. -/
def bodyContributors : Except ReferenceError (List Contributor) :=
  match site.operation.requestBody with
  | none => .ok []
  | some body =>
    match Resolver.schemaReference? body with
    | some r => .ok [.schema r]
    | none => (Reference.follow .requestBodies c.requestBodies body).map fun b =>
      b.content.map fun m => .content m.2

theorem body_eq : site.body c = (site.bodyContributors c).map fun cs =>
    (!cs.isEmpty, cs.map (Contributor.field site)) := by
  rw [Site.body, bodyContributors]
  cases site.operation.requestBody with
  | none => rfl
  | some body =>
    dsimp only
    cases Resolver.schemaReference? body with
    | some r => rfl
    | none =>
      cases Reference.follow .requestBodies c.requestBodies body with
      | error e => rfl
      | ok b => simp [Except.map, Body.fields, Contributor.field, Contributor.key, Contributor.ask]

/-- The body is a reference to a schema, or it has a media type. -/
def GivesBody : Prop :=
  ∃ body, site.operation.requestBody = some body ∧
    ((∃ r, Resolver.schemaReference? body = some r) ∨
      Resolver.schemaReference? body = none ∧
        ∃ b, Reference.follow .requestBodies c.requestBodies body = .ok b ∧ b.content ≠ [])

variable {c : Components} {site : Site} {body : List Contributor}

theorem bodyContributors_cases (h : site.bodyContributors c = .ok body) :
    (site.operation.requestBody = none ∧ body = []) ∨
      ∃ b, site.operation.requestBody = some b ∧
        ((∃ r, Resolver.schemaReference? b = some r ∧ body = [.schema r]) ∨
          Resolver.schemaReference? b = none ∧
            ∃ v, Reference.follow .requestBodies c.requestBodies b = .ok v ∧
              body = v.content.map fun m => .content m.2) := by
  rw [bodyContributors] at h
  cases hbody : site.operation.requestBody with
  | none =>
    rw [hbody] at h
    exact .inl ⟨rfl, (Except.ok.inj h).symm⟩
  | some b =>
    rw [hbody] at h
    refine .inr ⟨b, rfl, ?_⟩
    dsimp only at h
    cases hschema : Resolver.schemaReference? b with
    | some r =>
      rw [hschema] at h
      exact .inl ⟨r, rfl, (Except.ok.inj h).symm⟩
    | none =>
      rw [hschema] at h
      dsimp only at h
      cases hfollow : Reference.follow .requestBodies c.requestBodies b with
      | error e =>
        rw [hfollow] at h
        cases h
      | ok v =>
        rw [hfollow] at h
        exact .inr ⟨rfl, v, rfl, (Except.ok.inj h).symm⟩

theorem key_of_mem_body (h : site.bodyContributors c = .ok body) {k : Contributor} (hk : k ∈ body) :
    k.key site = ⟨site.bodyKey, false⟩ := by
  obtain ⟨-, rfl⟩ | ⟨b, -, ⟨r, -, rfl⟩ | ⟨-, v, -, rfl⟩⟩ := bodyContributors_cases h
  · cases hk
  · obtain rfl := List.mem_singleton.mp hk
    rfl
  · obtain ⟨m, -, rfl⟩ := List.mem_map.mp hk
    rfl

theorem ne_nil_iff_givesBody (h : site.bodyContributors c = .ok body) :
    body ≠ [] ↔ site.GivesBody c := by
  obtain ⟨hnone, rfl⟩ | ⟨b, hb, ⟨r, hr, rfl⟩ | ⟨hnone, v, hv, rfl⟩⟩ := bodyContributors_cases h
  · simp [GivesBody, hnone]
  · simp [GivesBody, hb, hr]
  · simp [GivesBody, hb, hnone, hv]

end Site

/-- All that give fields to a request, in the order in which they are asked: a later one replaces the
type that an earlier one has given to the same field. -/
def Contributor.all (ps : List Parameter) (body : List Contributor) : List Contributor :=
  (Parameter.group .path ps ++ Parameter.group .body ps ++ Parameter.group .query ps ++
    Parameter.group .form ps).map .parameter ++ body

/-- The names of the fields that are given are those of the parameters, and the key of the body if it
gives any. -/
theorem Contributor.exists_key_iff {c : Components} {site : Site} {body : List Contributor}
    (hbody : site.bodyContributors c = .ok body) (ps : List Parameter) (name : String) :
    (∃ k ∈ Contributor.all ps body, (k.key site).name = name) ↔
      name ∈ (Parameter.group .path ps).map (·.name) ∨
        name ∈ (Parameter.group .query ps).map (·.name) ∨
        name ∈ (Parameter.group .body ps).map (·.name) ++
          (if body.isEmpty then [] else [site.bodyKey]) ∨
        name ∈ (Parameter.group .form ps).map (·.name) := by
  have hgiven : (∃ k ∈ body, (k.key site).name = name) ↔
      name ∈ if body.isEmpty then [] else [site.bodyKey] := by
    cases body with
    | nil => simp
    | cons k ks =>
      simp only [List.isEmpty_cons, Bool.false_eq_true, if_false, List.mem_singleton]
      constructor
      · rintro ⟨k, hk, rfl⟩
        rw [Site.key_of_mem_body hbody hk]
      · rintro rfl
        exact ⟨k, List.mem_cons_self, by rw [Site.key_of_mem_body hbody List.mem_cons_self]⟩
  simp only [Contributor.all, List.mem_append, List.mem_map, or_and_right, exists_or,
    exists_exists_and_eq_and, hgiven, Contributor.key_parameter]
  exact iff_of_eq (by ac_rfl)

/-- The groups of an endpoint and the fields of its request, as the parameters `ps` and the body of an
operation give them when a pass comes to it in the state `p`. -/
structure Endpoint.Gathers (ep : Endpoint) (c : Components) (site : Site) (p : Pass)
    (ps : List Parameter) (body : List Contributor) : Prop where
  readsParameters : Resolver.parameters c site = pure ps
  readsBody : site.bodyContributors c = .ok body
  givesBody : body ≠ [] ↔ site.GivesBody c
  pathParams : ep.pathParams = (Parameter.group .path ps).map (·.name)
  queryParams : ep.queryParams = (Parameter.group .query ps).map (·.name)
  bodyParams : ep.bodyParams =
    (Parameter.group .body ps).map (·.name) ++ if body.isEmpty then [] else [site.bodyKey]
  formParams : ep.formParams = (Parameter.group .form ps).map (·.name)
  names : ∀ name, (∃ f ∈ ep.requestType, f.1.name = name) ↔
    name ∈ ep.pathParams ∨ name ∈ ep.queryParams ∨ name ∈ ep.bodyParams ∨ name ∈ ep.formParams
  once : (ep.requestType.map (·.1)).Nodup
  fields : ∃ types q,
    (Contributor.all ps body).mapM (Contributor.type c site) p = (.ok types, q) ∧
      ∀ key t, (key, t) ∈ ep.requestType ↔
        Assoc.Last (((Contributor.all ps body).map (Contributor.key site)).zip types) key t

/-- The pass over a description comes to an operation in the state `p` and makes the endpoint of it. -/
def Document.Makes (d : Document) (site : Site) (p : Pass) (ep : Endpoint) : Prop :=
  ∃ before after eps q, d.sites = before ++ site :: after ∧
    before.mapM (Resolver.endpoint d.components (Url.basePath d.servers)) { registry := .empty } =
      (.ok eps, p) ∧
    Resolver.endpoint d.components (Url.basePath d.servers) site p = (.ok ep, q)

theorem Resolver.endpoint_gathers {c : Components} {base : String} {site : Site} {p q : Pass}
    {ep : Endpoint} (h : endpoint c base site p = (.ok ep, q)) :
    ∃ ps body, ep.Gathers c site p ps body := by
  obtain ⟨R, types, t, z, hR, htypes, -, rfl⟩ := endpoint_eq_ok h
  obtain ⟨body, hbody, hgives, hfields⟩ : ∃ body, site.bodyContributors c = .ok body ∧
      R.hasBody = !body.isEmpty ∧ R.bodyFields = body.map (Contributor.field site) := by
    have hread := hR.body
    rw [site.body_eq c] at hread
    cases hbody : site.bodyContributors c with
    | error e =>
      rw [hbody] at hread
      cases congrFun hread p
    | ok body =>
      rw [hbody] at hread
      obtain ⟨hgives, hfields⟩ := Prod.mk.inj (pure_injective hread)
      exact ⟨body, rfl, hgives.symm, hfields.symm⟩
  have hall : R.fields = (Contributor.all R.parameters body).map (Contributor.field site) := by
    rw [Reading.fields, hfields, Contributor.all, List.map_append, List.map_map]
    rfl
  have hkeys : R.fields.map (·.1) = (Contributor.all R.parameters body).map (Contributor.key site) := by
    rw [hall, List.map_map]
    rfl
  have hrun : (Contributor.all R.parameters body).mapM (Contributor.type c site) p = (.ok types, z) := by
    rw [hall, List.mapM_map] at htypes
    rwa [funext (@Contributor.type_eq c site)]
  have hlength : ((Contributor.all R.parameters body).map (Contributor.key site)).length ≤ types.length := by
    rw [List.length_map, (mapM_splits hrun).length_eq]
  have hbodyParams : (Parameter.group .body R.parameters).map (·.name) ++
      (if R.hasBody then [site.bodyKey] else []) =
      (Parameter.group .body R.parameters).map (·.name) ++
        if body.isEmpty then [] else [site.bodyKey] := by
    rw [hgives]
    cases body <;> rfl
  refine ⟨R.parameters, body, hR.parameters, hbody, Site.ne_nil_iff_givesBody hbody, rfl, rfl,
    hbodyParams, rfl, fun name => ?_, Assoc.nodup_ofList _, types, z, hrun, fun key t => ?_⟩
  · have hkey (key : FieldKey) :
        (∃ f ∈ Assoc.ofList ((R.fields.map (·.1)).zip types), f.1 = key) ↔
          ∃ k ∈ Contributor.all R.parameters body, k.key site = key := by
      rw [← List.mem_map, Assoc.mem_keys_ofList, hkeys, List.map_fst_zip hlength, List.mem_map]
    have hnames := Contributor.exists_key_iff hbody R.parameters name
    rw [← hbodyParams] at hnames
    refine Iff.trans ⟨?_, ?_⟩ hnames
    · rintro ⟨f, hf, rfl⟩
      obtain ⟨k, hk, hkey⟩ := (hkey f.1).mp ⟨f, hf, rfl⟩
      exact ⟨k, hk, by rw [hkey]⟩
    · rintro ⟨k, hk, rfl⟩
      obtain ⟨f, hf, hkey⟩ := (hkey (k.key site)).mpr ⟨k, hk, rfl⟩
      exact ⟨f, hf, by rw [hkey]⟩
  · rw [← hkeys]
    exact Assoc.mem_ofList_iff

/-- The request type of every endpoint and its groups of parameters describe the same fields. -/
theorem Document.resolve_gathers {d : Document} {R : Resolution} (h : d.resolve = .ok R)
    {ep : Endpoint} (hep : ep ∈ R.operations) :
    ∃ site p ps body, d.Makes site p ep ∧ ep.Gathers d.components site p ps body := by
  obtain ⟨eps, q, hrun, -, hsorted⟩ := resolve_eq_sorted h
  rw [hsorted, List.mem_mergeSort] at hep
  obtain ⟨site, -, before, after, bs, p, q', hsites, hbefore, hmade⟩ :=
    exists_of_forall₂ (Resolver.mapM_splits hrun) hep
  obtain ⟨ps, body, hgathers⟩ := Resolver.endpoint_gathers hmade
  exact ⟨site, p, ps, body, ⟨before, after, bs, q', hsites, hbefore, hmade⟩, hgathers⟩

/-- A field that two parameters give, and one that a parameter and two media types give. -/
def sharedFieldsDocument : Document where
  paths := [("/notes", {
    operation? := fun m => if m = .post then some {
      operationId := some "add"
      parameters := [
        .inline { name := "tag", location := "cookie", required := true, type := some "integer" },
        .inline { name := "tag", location := "query", required := true, type := some "string" },
        .inline { name := "addRequest", location := "body", required := true, type := some "boolean" }]
      requestBody := some (.inline ⟨[
        ("text/plain", some (.inline { type := some (.single "string") })),
        ("application/json", some (.inline { type := some (.single "integer") }))]⟩) }
      else none })]

theorem resolve_gathers_shared :
    ∃ R ep, sharedFieldsDocument.resolve = .ok R ∧ ep ∈ R.operations ∧
      ep.requestType.map (fun f => (f.1, f.2.same (.primitive .number))) =
        [(⟨"addRequest", false⟩, true), (⟨"tag", false⟩, true)] ∧
      ep.queryParams = ["tag"] ∧ ep.bodyParams = ["addRequest", "addRequest"] ∧
      ep.formParams = ["tag"] ∧
      ∃ site p ps body, sharedFieldsDocument.Makes site p ep ∧
        ep.Gathers sharedFieldsDocument.components site p ps body := by
  have hrun : sharedFieldsDocument.resolve.toOption.map (fun R => R.operations.map fun ep =>
      (ep.requestType.map (fun f => (f.1, f.2.same (.primitive .number))),
        [ep.queryParams, ep.bodyParams, ep.formParams])) =
      some [([(⟨"addRequest", false⟩, true), (⟨"tag", false⟩, true)],
        [["tag"], ["addRequest", "addRequest"], ["tag"]])] := by
    decide +kernel
  obtain ⟨R, h, hoperations⟩ := Document.resolve_of_map hrun
  obtain ⟨ep, hep, hread⟩ := List.mem_map.mp (hoperations ▸ List.mem_singleton_self _)
  simp only [Prod.mk.injEq, List.cons.injEq, and_true] at hread
  obtain ⟨hfields, hquery, hbody, hform⟩ := hread
  exact ⟨R, ep, h, hep, hfields, hquery, hbody, hform, Document.resolve_gathers h hep⟩

end ApiClient

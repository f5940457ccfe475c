import ApiClient.Proofs.Following
import ApiClient.Proofs.Success

/-! Where the references of a description stand, and which section each of them has to point into there.
What the resolution of a description meets is among them. -/

namespace ApiClient

/-! ### The references of a description -/

/-- The reference in the place of a value, or those inside of the value. -/
def RefOr.references {α : Type} (part : Section) (inside : α → List (Section × String)) :
    RefOr α → List (Section × String)
  | .ref r => [(part, r)]
  | .inline a => inside a

/-- All references of a schema point into the schemas. -/
def Schema.allReferences (s : Option (RefOr Schema)) : List (Section × String) :=
  (referencesOfItems s).map (.schemas, ·)

def Parameter.references (p : Parameter) : List (Section × String) := Schema.allReferences p.schema

def Body.references (b : Body) : List (Section × String) :=
  b.content.flatMap fun m => Schema.allReferences m.2

/-- The body of a request may be a reference to a schema. -/
def RefOr.requestSection (body : RefOr Body) : Section :=
  if (Resolver.schemaReference? body).isSome then .schemas else .requestBodies

def Operation.references (op : Operation) : List (Section × String) :=
  op.parameters.flatMap (RefOr.references .parameters Parameter.references) ++
    op.requestBody.toList.flatMap (fun b => b.references b.requestSection Body.references) ++
    op.responses.flatMap fun e => e.2.references .responses Body.references

def PathItem.references (item : PathItem) : List (Section × String) :=
  item.parameters.flatMap (RefOr.references .parameters Parameter.references) ++
    item.operations.flatMap fun e => e.2.references

namespace Components

variable (c : Components)

def references : List (Section × String) :=
  c.schemas.flatMap (fun e => Schema.allReferences (some e.2)) ++
    c.parameters.flatMap (fun e => e.2.references .parameters Parameter.references) ++
    c.requestBodies.flatMap (fun e => e.2.references .requestBodies Body.references) ++
    c.responses.flatMap fun e => e.2.references .responses Body.references

/-- The entry of a section under a name, as far as it is known whether it is a reference: no entry, a
value, or the reference. -/
def entry? (name : String) : Section → Option (Option String)
  | .schemas => (c.schemas.lookup name).map RefOr.reference?
  | .parameters => (c.parameters.lookup name).map RefOr.reference?
  | .requestBodies => (c.requestBodies.lookup name).map RefOr.reference?
  | .responses => (c.responses.lookup name).map RefOr.reference?

end Components

/-- The references that stand anywhere in a description, each with the section that is required in its
place. -/
def Document.references (d : Document) : List (Section × String) :=
  d.paths.flatMap (fun e => e.2.references) ++ d.components.references

/-! ### The references of the operations -/

section

variable {d : Document} {c : Components} {site : Site} {o : Section × String}

theorem Schema.mem_allReferences {s : Option (RefOr Schema)} {r : String} :
    (Section.schemas, r) ∈ allReferences s ↔ r ∈ referencesOfItems s := by
  simp [allReferences]

theorem RefOr.references_subset_of_lookup {α : Type} {part : Section}
    {inside : α → List (Section × String)} {table : List (String × RefOr α)} {name : String}
    {item : RefOr α} (h : table.lookup name = some item) :
    item.references part inside ⊆ table.flatMap fun e => e.2.references part inside := by
  intro o ho
  exact List.mem_flatMap.mpr ⟨(name, item), Assoc.mem_of_lookup h, ho⟩

theorem Document.mem_sites (h : site ∈ d.sites) :
    (site.path, site.item) ∈ d.paths ∧ (site.method, site.operation) ∈ site.item.operations := by
  obtain ⟨⟨path, item⟩, hpath, hsite⟩ := List.mem_flatMap.mp h
  obtain ⟨⟨m, op⟩, hop, rfl⟩ := List.mem_map.mp hsite
  exact ⟨hpath, hop⟩

theorem Document.mem_references_of_item (h : site ∈ d.sites) (ho : o ∈ site.item.references) :
    o ∈ d.references :=
  List.mem_append_left _ (List.mem_flatMap.mpr ⟨_, (mem_sites h).1, ho⟩)

theorem Document.mem_references_of_operation (h : site ∈ d.sites)
    (ho : o ∈ site.operation.references) : o ∈ d.references :=
  mem_references_of_item h
    (List.mem_append_right _ (List.mem_flatMap.mpr ⟨_, (mem_sites h).2, ho⟩))

theorem Site.references_of_parameter (h : site ∈ d.sites) {p : RefOr Parameter}
    (hp : p ∈ site.item.parameters ++ site.operation.parameters) :
    p.references .parameters Parameter.references ⊆ d.references := by
  intro o ho
  rcases List.mem_append.mp hp with hp | hp
  · exact Document.mem_references_of_item h
      (List.mem_append_left _ (List.mem_flatMap.mpr ⟨p, hp, ho⟩))
  · exact Document.mem_references_of_operation h
      (List.mem_append_left _ (List.mem_append_left _ (List.mem_flatMap.mpr ⟨p, hp, ho⟩)))

theorem Site.references_of_body (h : site ∈ d.sites) {b : RefOr Body}
    (hb : site.operation.requestBody = some b) :
    b.references b.requestSection Body.references ⊆ d.references := by
  intro o ho
  refine Document.mem_references_of_operation h
    (List.mem_append_left _ (List.mem_append_right _ (List.mem_flatMap.mpr ⟨b, ?_, ho⟩)))
  exact Option.mem_toList.mpr hb

theorem Site.references_of_response (h : site ∈ d.sites) {status : String} {b : RefOr Body}
    (hb : site.operation.responses.lookup status = some b) :
    b.references .responses Body.references ⊆ d.references := by
  intro o ho
  exact Document.mem_references_of_operation h
    (List.mem_append_right _ (RefOr.references_subset_of_lookup hb ho))

end

/-! ### The references of the components -/

namespace Document

variable {d : Document} {name r : String}

theorem mem_references_of_schemas (h : r ∈ Schema.referencesOfFields d.components.schemas) :
    (Section.schemas, r) ∈ d.references := by
  have hfields (fs : List (String × RefOr Schema)) (h : r ∈ Schema.referencesOfFields fs) :
      (Section.schemas, r) ∈ fs.flatMap fun e => Schema.allReferences (some e.2) := by
    induction fs with
    | nil => cases h
    | cons f fs ih =>
      rw [List.flatMap_cons]
      rcases List.mem_append.mp h with h | h
      · exact List.mem_append_left _ (Schema.mem_allReferences.mpr h)
      · exact List.mem_append_right _ (ih h)
  simp [references, Components.references, hfields _ h]

theorem references_of_parameter {p : RefOr Parameter}
    (h : d.components.parameters.lookup name = some p) :
    p.references .parameters Parameter.references ⊆ d.references := by
  intro o ho
  have hmem := RefOr.references_subset_of_lookup h ho
  simp [references, Components.references, hmem]

theorem references_of_requestBody {b : RefOr Body}
    (h : d.components.requestBodies.lookup name = some b) :
    b.references .requestBodies Body.references ⊆ d.references := by
  intro o ho
  have hmem := RefOr.references_subset_of_lookup h ho
  simp [references, Components.references, hmem]

theorem references_of_response {b : RefOr Body}
    (h : d.components.responses.lookup name = some b) :
    b.references .responses Body.references ⊆ d.references := by
  intro o ho
  have hmem := RefOr.references_subset_of_lookup h ho
  simp [references, Components.references, hmem]

end Document

/-! ### What is met stands in the description -/

namespace Reference

variable {α : Type} {part : Section} {table : List (String × RefOr α)} {item : RefOr α}
  {inside : α → List (Section × String)} {all : List (Section × String)}

theorem mem_of_continues {r s : String}
    (htable : ∀ name next, table.lookup name = some next → next.references part inside ⊆ all)
    (h : Continues part table r s) : (part, s) ∈ all := by
  obtain ⟨name, -, hname⟩ := h
  exact htable name _ hname List.mem_cons_self

theorem mem_of_item {r : String} (hitem : item.references part inside ⊆ all) (h : item = .ref r) :
    (part, r) ∈ all := by
  subst h
  exact hitem List.mem_cons_self

section

variable (hitem : item.references part inside ⊆ all)
  (htable : ∀ name next, table.lookup name = some next → next.references part inside ⊆ all)

include hitem htable

/-- The value that is found has its references among those of the item and of the table. -/
theorem references_of_follow_ok {a : α} (h : follow part table item = .ok a) : inside a ⊆ all := by
  obtain rfl | ⟨name, hname⟩ := follow_ok h
  · exact hitem
  · exact htable name _ hname

theorem faulty_of_follow_error {e : ReferenceError} (h : follow part table item = .error e) :
    ∃ r, (part, r) ∈ all ∧ Faulty part table r e :=
  follow_error h (fun _ _ _ => mem_of_continues htable) fun _ => mem_of_item hitem

/-- Two tables that agree on all that is denoted have the same value for the item. -/
theorem follow_congr_of_references {table' : List (String × RefOr α)}
    (hsame : ∀ r name, (part, r) ∈ all → component part r = .ok name →
      table.lookup name = table'.lookup name) : follow part table item = follow part table' item :=
  follow_congr (fun _ _ _ => mem_of_continues htable) hsame fun _ => mem_of_item hitem

end

end Reference

theorem Parameter.mem_merge {p q : Parameter} {qs : List Parameter} (h : q ∈ p.merge qs) :
    q = p ∨ q ∈ qs := by
  induction qs with
  | nil => exact .inl (List.mem_singleton.mp h)
  | cons q' qs ih =>
    rw [merge] at h
    split at h <;> rcases List.mem_cons.mp h with rfl | h
    · exact .inl rfl
    · exact .inr (List.mem_cons_of_mem _ h)
    · exact .inr List.mem_cons_self
    · exact (ih h).imp_right (List.mem_cons_of_mem _)

theorem Parameter.mem_mergeAll {p : Parameter} {ps : List Parameter} (h : p ∈ mergeAll ps) :
    p ∈ ps := by
  induction ps using List.reverseRecOn with
  | nil => cases h
  | append_singleton ps q ih =>
    rw [mergeAll, List.foldl_append] at h
    rcases mem_merge h with rfl | h
    · exact List.mem_append_right _ List.mem_cons_self
    · exact List.mem_append_left _ (ih h)

namespace Resolver

variable {α β : Type} {c : Components} {site : Site} {e : ReferenceError}

theorem lift_eq_throw {x : Except ReferenceError α} (h : lift x = throw e) : x = .error e := by
  cases x with
  | ok a => exact absurd h (pure_ne_throw a e)
  | error e' => exact congrArg _ (Except.error.inj (Prod.mk.inj (congrFun h { registry := .empty })).1)

theorem lift_eq_pure {x : Except ReferenceError α} {a : α} (h : lift x = pure a) : x = .ok a := by
  cases x with
  | ok b => exact congrArg _ (pure_injective h)
  | error e => exact absurd h.symm (pure_ne_throw a e)

theorem mapM_lift (f : α → Except ReferenceError β) (as : List α) :
    (as.mapM fun a => lift (f a)) = lift (as.mapM f) := by
  induction as with
  | nil => rfl
  | cons a as ih =>
    rw [List.mapM_cons, List.mapM_cons, ih]
    cases f a with
    | error e => rfl
    | ok b => cases as.mapM f <;> rfl

/-- What an operation says of its parameters, each followed to its value. -/
def followed (c : Components) (site : Site) : Except ReferenceError (List Parameter) :=
  (site.item.parameters ++ site.operation.parameters).mapM (Reference.follow .parameters c.parameters)

theorem parameters_eq (c : Components) (site : Site) :
    parameters c site = lift ((followed c site).map Parameter.mergeAll) := by
  rw [parameters, mapM_lift, followed]
  cases (site.item.parameters ++ site.operation.parameters).mapM
    (Reference.follow .parameters c.parameters) <;> rfl

/-- A monadic map fails with the error of one of its elements, or each element gives its result. -/
theorem mapM_cases (f : α → Except ReferenceError β) (as : List α) :
    (∃ a ∈ as, ∃ e, f a = .error e ∧ as.mapM f = .error e) ∨
      ∃ bs, as.mapM f = .ok bs ∧ List.Forall₂ (fun a b => f a = .ok b) as bs := by
  induction as with
  | nil => exact .inr ⟨[], rfl, .nil⟩
  | cons a as ih =>
    rw [List.mapM_cons]
    cases ha : f a with
    | error e => exact .inl ⟨a, List.mem_cons_self, e, ha, rfl⟩
    | ok b =>
      obtain ⟨a', ha', e, hf, hmap⟩ | ⟨bs, hmap, hbs⟩ := ih
      · rw [hmap]
        exact .inl ⟨a', List.mem_cons_of_mem _ ha', e, hf, rfl⟩
      · rw [hmap]
        exact .inr ⟨b :: bs, rfl, .cons ha hbs⟩

theorem parameters_eq_throw (h : parameters c site = throw e) :
    ∃ p ∈ site.item.parameters ++ site.operation.parameters,
      Reference.follow .parameters c.parameters p = .error e := by
  rw [parameters_eq, followed] at h
  obtain ⟨p, hp, e', hfollow, hmap⟩ | ⟨ps, hmap, -⟩ := mapM_cases
    (Reference.follow .parameters c.parameters) (site.item.parameters ++ site.operation.parameters)
  · rw [hmap] at h
    obtain rfl := Except.error.inj (lift_eq_throw h)
    exact ⟨p, hp, hfollow⟩
  · rw [hmap] at h
    exact absurd h (pure_ne_throw _ e)

theorem exists_of_mem_parameters {ps : List Parameter} {p : Parameter}
    (h : parameters c site = pure ps) (hp : p ∈ ps) :
    ∃ item ∈ site.item.parameters ++ site.operation.parameters,
      Reference.follow .parameters c.parameters item = .ok p := by
  rw [parameters_eq, followed] at h
  obtain ⟨-, -, e, -, hmap⟩ | ⟨qs, hmap, hqs⟩ := mapM_cases
    (Reference.follow .parameters c.parameters) (site.item.parameters ++ site.operation.parameters)
  · rw [hmap] at h
    exact absurd h.symm (pure_ne_throw ps e)
  · rw [hmap] at h
    obtain rfl := Except.ok.inj (lift_eq_pure h)
    obtain ⟨item, hitem, hfollow⟩ := exists_of_forall₂ hqs (Parameter.mem_mergeAll hp)
    exact ⟨item, hitem, hfollow⟩

theorem answerSchema_eq_throw {responses : List (String × RefOr Body)}
    {answers : List (String × String)} (h : answerSchema c responses answers = throw e) :
    ∃ status response, responses.lookup status = some response ∧
      Reference.follow .responses c.responses response = .error e := by
  induction answers with
  | nil => exact absurd h (pure_ne_throw _ e)
  | cons answer answers ih =>
    rw [answerSchema] at h
    split at h
    · exact ih h
    · rename_i response hresponse
      cases hfollow : Reference.follow .responses c.responses response with
      | error e' =>
        rw [hfollow] at h
        have hlift : lift (.error e') = (throw e : Resolver (Option (RefOr Schema))) := h
        obtain rfl := Except.error.inj (lift_eq_throw hlift)
        exact ⟨answer.1, response, hresponse, hfollow⟩
      | ok b =>
        rw [hfollow, lift_ok, pure_bind] at h
        split at h
        · exact absurd h (pure_ne_throw _ e)
        · exact ih h

theorem answerSchema_eq_some {responses : List (String × RefOr Body)}
    {answers : List (String × String)} {s : RefOr Schema}
    (h : answerSchema c responses answers = pure (some s)) :
    ∃ status response b mediaType, responses.lookup status = some response ∧
      Reference.follow .responses c.responses response = .ok b ∧
      b.content.lookup mediaType = some (some s) := by
  induction answers with
  | nil => cases pure_injective h
  | cons answer answers ih =>
    rw [answerSchema] at h
    split at h
    · exact ih h
    · rename_i response hresponse
      cases hfollow : Reference.follow .responses c.responses response with
      | error e' =>
        rw [hfollow] at h
        exact absurd h.symm (pure_ne_throw _ e')
      | ok b =>
        rw [hfollow, lift_ok, pure_bind] at h
        split at h
        · rename_i s' hs'
          obtain rfl := Option.some.inj (pure_injective h)
          exact ⟨answer.1, response, b, answer.2, hresponse, hfollow, Option.join_eq_some_iff.mp hs'⟩
        · exact ih h

end Resolver

theorem Parameter.mem_of_asked {p : Parameter} {ps : List Parameter} (h : p ∈ asked ps) : p ∈ ps := by
  simp only [asked, group, List.mem_append, List.mem_filter] at h
  rcases h with ((h | h) | h) | h <;> exact h.1

theorem Resolver.schemaReference?_eq_some {b : RefOr Body} {r : String}
    (h : schemaReference? b = some r) : b = .ref r := by
  cases b with
  | inline v => cases h
  | ref r' =>
    rw [schemaReference?] at h
    split at h
    · split_ifs at h
      rw [Option.some.inj h]
    · cases h

/-- There is no body, or it is a reference to a schema, or it has to be followed. -/
theorem Site.body_cases (c : Components) (site : Site) :
    (site.operation.requestBody = none ∧ site.body c = .ok (false, [])) ∨
      (∃ r, site.operation.requestBody = some (.ref r) ∧
        (RefOr.ref r : RefOr Body).requestSection = .schemas ∧
        site.body c = .ok (true, [(⟨site.bodyKey, false⟩, ⟨.ref r, site.bodyKey, site.bodyKey⟩)])) ∨
      ∃ b, site.operation.requestBody = some b ∧ b.requestSection = .requestBodies ∧
        site.body c = (Reference.follow .requestBodies c.requestBodies b).map
          fun v => (!v.content.isEmpty, v.fields site.bodyKey) := by
  rw [body]
  cases hb : site.operation.requestBody with
  | none => exact .inl ⟨rfl, rfl⟩
  | some b =>
    refine .inr ?_
    cases hschema : Resolver.schemaReference? b with
    | some r =>
      obtain rfl := Resolver.schemaReference?_eq_some hschema
      exact .inl ⟨r, rfl, by simp [RefOr.requestSection, hschema], by simp [hschema]⟩
    | none => exact .inr ⟨b, rfl, by simp [RefOr.requestSection, hschema], by simp [hschema]⟩

theorem Parameter.mem_references_of_ask {p : Parameter} {r : String} (h : r ∈ p.ask.outline.refs) :
    (.schemas, r) ∈ p.references := by
  rw [ask] at h
  rw [references, Schema.mem_allReferences]
  cases hs : p.schema with
  | some s =>
    rw [hs] at h
    exact Schema.mem_referencesOfItems (some s) h
  | none =>
    rw [hs] at h
    cases ht : p.type.bind Primitive.ofTypeName? <;> simp [ht, Outline.refs] at h

theorem Body.mem_references_of_content {b : Body} {m : String × Option (RefOr Schema)} {r : String}
    (hm : m ∈ b.content) (h : r ∈ (Schema.outlineOf? m.2).refs) : (.schemas, r) ∈ b.references :=
  List.mem_flatMap.mpr ⟨m, hm, Schema.mem_allReferences.mpr (Schema.mem_referencesOfItems m.2 h)⟩

theorem Body.mem_references_of_fields {b : Body} {key r : String} {f : FieldKey × Ask}
    (hf : f ∈ b.fields key) (h : r ∈ f.2.outline.refs) : (.schemas, r) ∈ b.references := by
  obtain ⟨m, hm, rfl⟩ := List.mem_map.mp hf
  exact mem_references_of_content hm h

namespace Site

open Reference Resolver

variable {d : Document} {site : Site} {e : ReferenceError}

/-- An error of reading an operation says what is wrong with a reference that stands in the
description, in the section that is required there. -/
theorem Refuses.faulty (h : site.Refuses d.components e) (hsite : site ∈ d.sites) :
    (∃ r, (.parameters, r) ∈ d.references ∧ Faulty .parameters d.components.parameters r e) ∨
      (∃ r, (.requestBodies, r) ∈ d.references ∧
        Faulty .requestBodies d.components.requestBodies r e) ∨
      ∃ r, (.responses, r) ∈ d.references ∧ Faulty .responses d.components.responses r e := by
  cases h with
  | parameters h =>
    obtain ⟨p, hp, hfollow⟩ := parameters_eq_throw h
    exact .inl (faulty_of_follow_error (references_of_parameter hsite hp)
      (fun _ _ => Document.references_of_parameter) hfollow)
  | body h =>
    have hbody := lift_eq_throw h
    obtain ⟨-, heq⟩ | ⟨r, -, -, heq⟩ | ⟨b, hb, hpart, heq⟩ := site.body_cases d.components
    · simp [heq] at hbody
    · simp [heq] at hbody
    · have hreferences := references_of_body hsite hb
      rw [hpart] at hreferences
      cases hfollow : follow .requestBodies d.components.requestBodies b with
      | ok v => simp [heq, hfollow, Except.map] at hbody
      | error e' =>
        rw [heq, hfollow] at hbody
        obtain rfl := Except.error.inj hbody
        exact .inr (.inl (faulty_of_follow_error hreferences
          (fun _ _ => Document.references_of_requestBody) hfollow))
  | answer h =>
    obtain ⟨status, response, hresponse, hfollow⟩ := answerSchema_eq_throw h
    exact .inr (.inr (faulty_of_follow_error (references_of_response hsite hresponse)
      (fun _ _ => Document.references_of_response) hfollow))

variable {a : Ask} {r : String}

/-- The references that the types of an operation begin with stand in the description. -/
theorem Asks.mem_references (h : site.Asks d.components a) (hsite : site ∈ d.sites)
    (hr : r ∈ a.outline.refs) : (.schemas, r) ∈ d.references := by
  cases h with
  | parameter h hf =>
    obtain ⟨p, hp, rfl⟩ := List.mem_map.mp hf
    obtain ⟨item, hitem, hfollow⟩ := exists_of_mem_parameters h (Parameter.mem_of_asked hp)
    exact references_of_follow_ok (references_of_parameter hsite hitem)
      (fun _ _ => Document.references_of_parameter) hfollow (Parameter.mem_references_of_ask hr)
  | body h hf =>
    have hbody := lift_eq_pure h
    obtain ⟨-, heq⟩ | ⟨r', hb, hpart, heq⟩ | ⟨b, hb, hpart, heq⟩ := site.body_cases d.components
    · obtain ⟨-, rfl⟩ := Prod.mk.inj (Except.ok.inj (heq.symm.trans hbody))
      cases hf
    · obtain ⟨-, rfl⟩ := Prod.mk.inj (Except.ok.inj (heq.symm.trans hbody))
      obtain rfl := List.mem_singleton.mp hf
      obtain rfl := List.mem_singleton.mp hr
      have hreferences := references_of_body hsite hb
      rw [hpart] at hreferences
      exact hreferences List.mem_cons_self
    · have hreferences := references_of_body hsite hb
      rw [hpart] at hreferences
      cases hfollow : follow .requestBodies d.components.requestBodies b with
      | error e => simp [heq, hfollow, Except.map] at hbody
      | ok v =>
        rw [heq, hfollow] at hbody
        obtain ⟨-, rfl⟩ := Prod.mk.inj (Except.ok.inj hbody)
        exact references_of_follow_ok hreferences (fun _ _ => Document.references_of_requestBody)
          hfollow (Body.mem_references_of_fields hf hr)
  | @answer s h =>
    cases s with
    | none => cases hr
    | some s =>
      obtain ⟨status, response, b, mediaType, hresponse, hfollow, hs⟩ := answerSchema_eq_some h
      exact references_of_follow_ok (references_of_response hsite hresponse)
        (fun _ _ => Document.references_of_response) hfollow
        (Body.mem_references_of_content (Assoc.mem_of_lookup hs) hr)

/-- All references that the types of an operation lead to stand in the description. -/
theorem Asks.reaches_mem_references (h : site.Asks d.components a) (hsite : site ∈ d.sites)
    (hr : a.outline.Reaches d.components.schemas r) : (.schemas, r) ∈ d.references := by
  cases hr with
  | own hr => exact h.mem_references hsite hr
  | through _ hpoints hr => exact Document.mem_references_of_schemas (hpoints.mem_references hr)

end Site

end ApiClient

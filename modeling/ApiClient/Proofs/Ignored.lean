import ApiClient.Proofs.Agreement
import ApiClient.Proofs.Failures

/-! The parts of a description that are never looked at: answers under other statuses or of other media
types, parameters in places that a request does not have, servers after the first, and components that
no reference denotes. Descriptions that differ in nothing else are resolved to the same. -/

namespace ApiClient

/-! ### Descriptions that agree -/

/-- The request has a place for the parameter. -/
def Parameter.placed (p : Parameter) : Bool :=
  ["path", "query", "body", "cookie", "formData"].contains p.location

/-- A parameter that is not written out may be placed. -/
def RefOr.placed : RefOr Parameter → Bool
  | .ref _ => true
  | .inline p => p.placed

/-- The statuses of answers that are looked at, and the media types that are looked at in them. -/
def answerTypes : List (String × List String) :=
  [("200", ["application/json", "*/*"]), ("201", ["application/json"])]

/-- The bodies say the same of the media types. -/
def Body.AgreesOn (mediaTypes : List String) (b b' : Body) : Prop :=
  ∀ m ∈ mediaTypes, b.content.lookup m = b'.content.lookup m

structure Operation.Agrees (op op' : Operation) : Prop where
  operationId : op.operationId = op'.operationId
  parameters : op.parameters.filter RefOr.placed = op'.parameters.filter RefOr.placed
  requestBody : op.requestBody = op'.requestBody
  responses : ∀ e ∈ answerTypes, Option.Rel (RefOr.Rel (Body.AgreesOn e.2))
    (op.responses.lookup e.1) (op'.responses.lookup e.1)

structure PathItem.Agrees (item item' : PathItem) : Prop where
  parameters : item.parameters.filter RefOr.placed = item'.parameters.filter RefOr.placed
  operations : ∀ m, Option.Rel Operation.Agrees (item.operation? m) (item'.operation? m)

namespace Document

/-- Some reference of the description denotes the entry of the section. -/
def Denotes (d : Document) (part : Section) (name : String) : Prop :=
  ∃ r, (part, r) ∈ d.references ∧ Reference.component part r = .ok name

/-- The reference stands for an answer under the status, by itself or through others. -/
inductive Answers (d : Document) (status : String) : String → Prop
  | own {site : Site} {r : String} :
    site ∈ d.sites → site.operation.responses.lookup status = some (.ref r) → Answers d status r
  | next {r s : String} : Answers d status r →
    Reference.Continues .responses d.components.responses r s → Answers d status s

/-- The descriptions differ in nothing but what is never looked at. Of the components that are answers
only those media types count that are looked at under their statuses. -/
structure Agrees (d d' : Document) : Prop where
  servers : d.servers.head? = d'.servers.head?
  paths : List.Forall₂ (fun e e' => e.1 = e'.1 ∧ e.2.Agrees e'.2) d.paths d'.paths
  schemas : ∀ name, d.Denotes .schemas name ∨ d'.Denotes .schemas name →
    d.components.schemas.lookup name = d'.components.schemas.lookup name
  parameters : ∀ name, d.Denotes .parameters name ∨ d'.Denotes .parameters name →
    d.components.parameters.lookup name = d'.components.parameters.lookup name
  requestBodies : ∀ name, d.Denotes .requestBodies name ∨ d'.Denotes .requestBodies name →
    d.components.requestBodies.lookup name = d'.components.requestBodies.lookup name
  responses : ∀ e ∈ answerTypes, ∀ r name, d.Answers e.1 r ∨ d'.Answers e.1 r →
    Reference.component .responses r = .ok name →
    Option.Rel (RefOr.Rel (Body.AgreesOn e.2))
      (d.components.responses.lookup name) (d'.components.responses.lookup name)

end Document

/-! ### Parameters without a place -/

namespace Parameter

variable {p : Parameter} {ps qs : List Parameter} {place : Place}

theorem placed_of_ofLocation? (h : Place.ofLocation? p.location = some place) : p.placed = true := by
  rw [Place.ofLocation?] at h
  rw [placed, List.contains_iff_mem]
  split_ifs at h <;> simp_all

/-- A parameter without a place takes no place from one that has one. -/
theorem filter_placed_merge : (p.merge ps).filter placed =
    if p.placed then p.merge (ps.filter placed) else ps.filter placed := by
  induction ps with
  | nil => cases hp : p.placed <;> simp [merge, hp]
  | cons q ps ih =>
    rw [merge]
    by_cases hsame : p.samePlace q = true
    · have hplaced : p.placed = q.placed := by
        rw [samePlace, Bool.and_eq_true, beq_iff_eq, beq_iff_eq] at hsame
        rw [placed, placed, hsame.2]
      rw [if_pos hsame, List.filter_cons, List.filter_cons, ← hplaced]
      split_ifs
      · rw [merge, if_pos hsame]
      · rfl
    · rw [if_neg hsame, List.filter_cons, List.filter_cons, ih]
      by_cases hp : p.placed <;> by_cases hq : q.placed <;> simp [hp, hq, merge, hsame]

theorem filter_placed_mergeAll : (mergeAll ps).filter placed = mergeAll (ps.filter placed) := by
  induction ps using List.reverseRecOn with
  | nil => rfl
  | append_singleton ps p ih =>
    rw [mergeAll, List.foldl_append, List.filter_append]
    show (p.merge (mergeAll ps)).filter placed = _
    rw [filter_placed_merge, ih, mergeAll, mergeAll, List.foldl_append]
    cases hp : p.placed <;> simp [hp]

theorem group_filter_placed : group place (ps.filter placed) = group place ps := by
  rw [group, List.filter_filter, group]
  refine List.filter_congr fun p _ => ?_
  rw [Bool.and_eq_left_iff_imp, beq_iff_eq]
  exact placed_of_ofLocation?

/-- The groups of merged parameters are those of the ones that have a place. -/
theorem group_mergeAll (h : ps.filter placed = qs.filter placed) :
    group place (mergeAll ps) = group place (mergeAll qs) := by
  rw [← group_filter_placed, filter_placed_mergeAll, h, ← filter_placed_mergeAll, group_filter_placed]

theorem asked_congr (h : ∀ place, group place ps = group place qs) : asked ps = asked qs := by
  rw [asked, asked, h, h, h, h]

end Parameter

/-! ### Operations that agree -/

theorem Url.basePath_congr {servers servers' : List String} (h : servers.head? = servers'.head?) :
    basePath servers = basePath servers' := by
  cases servers <;> cases servers' <;> simp_all [basePath]

structure Site.Agrees (site site' : Site) : Prop where
  path : site.path = site'.path
  item : site.item.Agrees site'.item
  method : site.method = site'.method
  operation : site.operation.Agrees site'.operation

theorem PathItem.Agrees.operations_agree {item item' : PathItem} (h : item.Agrees item') :
    List.Forall₂ (fun e e' => e.1 = e'.1 ∧ e.2.Agrees e'.2) item.operations item'.operations := by
  refine List.rel_filterMap (R := Eq) ?_ (List.forall₂_refl Method.all)
  rintro m - rfl
  have hm := h.operations m
  dsimp only
  generalize item.operation? m = op, item'.operation? m = op' at hm ⊢
  cases hm with
  | none => exact .none
  | some hop => exact .some ⟨rfl, hop⟩

theorem Document.Agrees.sites_agree {d d' : Document} (h : d.Agrees d') :
    List.Forall₂ Site.Agrees d.sites d'.sites := by
  refine List.rel_flatMap h.paths fun e e' he => ?_
  rw [List.forall₂_map_left_iff, List.forall₂_map_right_iff]
  exact he.2.operations_agree.imp fun _ _ ho => ⟨he.1, he.2, ho.1, ho.2⟩

namespace Resolver

variable {α β : Type}

theorem mapM_congr {f g : α → Except ReferenceError β} {as : List α} (h : ∀ a ∈ as, f a = g a) :
    as.mapM f = as.mapM g := by
  induction as with
  | nil => rfl
  | cons a as ih =>
    rw [List.mapM_cons, List.mapM_cons, h a List.mem_cons_self,
      ih fun a ha => h a (List.mem_cons_of_mem _ ha)]

theorem filter_mapM_cons (f : α → Except ReferenceError β) (keep : β → Bool) (a : α) (as : List α) :
    ((a :: as).mapM f).map (List.filter keep) = do
      let b ← f a
      let bs ← (as.mapM f).map (List.filter keep)
      return [b].filter keep ++ bs := by
  rw [List.mapM_cons]
  cases f a with
  | error e => rfl
  | ok b =>
    cases as.mapM f with
    | error e => rfl
    | ok bs => exact congrArg Except.ok (List.filter_append [b] bs)

/-- Parameters without a place are found and dropped again. -/
theorem filter_placed_followed (table : List (String × RefOr Parameter)) (items : List (RefOr Parameter)) :
    (items.mapM (Reference.follow .parameters table)).map (List.filter Parameter.placed) =
      ((items.filter RefOr.placed).mapM (Reference.follow .parameters table)).map
        (List.filter Parameter.placed) := by
  induction items with
  | nil => rfl
  | cons item items ih =>
    cases hitem : item.placed with
    | true => rw [List.filter_cons_of_pos hitem, filter_mapM_cons, filter_mapM_cons, ih]
    | false =>
      cases item with
      | ref r => cases hitem
      | inline p =>
        have hfollow : Reference.follow .parameters table (.inline p) = .ok p := rfl
        have hdropped : [p].filter Parameter.placed = [] := by simpa [RefOr.placed] using hitem
        rw [List.filter_cons_of_neg (by simp [hitem]), filter_mapM_cons, ih, hfollow]
        show (do
          let ps ← ((items.filter RefOr.placed).mapM (Reference.follow .parameters table)).map
            (List.filter Parameter.placed)
          return [p].filter Parameter.placed ++ ps) = _
        rw [hdropped]
        exact bind_pure _

end Resolver

namespace Document.Agrees

open Reference Resolver

variable {d d' : Document} {site site' : Site} (h : d.Agrees d') (hsite : site ∈ d.sites)
  (hs : site.Agrees site')

include h hsite

/-- Answers that are looked at are found alike. -/
theorem follow_answer {e : String × List String} (he : e ∈ answerTypes) {response response' : RefOr Body}
    (hresponse : site.operation.responses.lookup e.1 = some response)
    (hrel : RefOr.Rel (Body.AgreesOn e.2) response response') :
    Alike (Body.AgreesOn e.2) (follow .responses d.components.responses response)
      (follow .responses d'.components.responses response') := by
  refine follow_alike (fun r s hr hrs => Answers.next hr hrs)
    (fun r name hr hname => h.responses e he r name (.inl hr) hname) (fun r hr => ?_) hrel
  exact .own hsite (hr ▸ hresponse)

include hs

theorem filter_placed_followed :
    (followed d.components site).map (List.filter Parameter.placed) =
      (followed d'.components site').map (List.filter Parameter.placed) := by
  have hfilter : (site.item.parameters ++ site.operation.parameters).filter RefOr.placed =
      (site'.item.parameters ++ site'.operation.parameters).filter RefOr.placed := by
    rw [List.filter_append, List.filter_append, hs.item.parameters, hs.operation.parameters]
  rw [followed, followed,
    Resolver.filter_placed_followed _ (site.item.parameters ++ site.operation.parameters),
    Resolver.filter_placed_followed _ (site'.item.parameters ++ site'.operation.parameters), ← hfilter]
  refine congrArg _ (mapM_congr fun p hp => ?_)
  refine follow_congr_of_references
    (Site.references_of_parameter hsite (List.mem_filter.mp hp).1)
    (fun _ _ => Document.references_of_parameter) fun r name hr hname => ?_
  exact h.parameters name (.inl ⟨r, hr, hname⟩)

theorem body_eq : site.body d.components = site'.body d'.components := by
  rw [Site.body, Site.body, ← hs.operation.requestBody]
  have hkey : site.bodyKey = site'.bodyKey := by
    rw [Site.bodyKey, Site.bodyKey, Site.operationId, Site.operationId, hs.operation.operationId]
  cases hb : site.operation.requestBody with
  | none => rfl
  | some b =>
    dsimp only
    cases hschema : schemaReference? b with
    | some r => rw [hkey]
    | none =>
      have hreferences := Site.references_of_body hsite hb
      rw [RefOr.requestSection, hschema] at hreferences
      have hfollow : follow .requestBodies d.components.requestBodies b =
          follow .requestBodies d'.components.requestBodies b :=
        follow_congr_of_references hreferences (fun _ _ => Document.references_of_requestBody)
          fun r name hr hname => h.requestBodies name (.inl ⟨r, hr, hname⟩)
      rw [hfollow, hkey]

theorem answerSchema_eq {answers : List (String × String)}
    (hanswers : ∀ a ∈ answers, ∃ e ∈ answerTypes, a.1 = e.1 ∧ a.2 ∈ e.2) :
    answerSchema d.components site.operation.responses answers =
      answerSchema d'.components site'.operation.responses answers := by
  induction answers with
  | nil => rfl
  | cons a answers ih =>
    obtain ⟨status, mediaType⟩ := a
    obtain ⟨e, he, rfl, hmedia⟩ := hanswers _ List.mem_cons_self
    have htail := ih fun a ha => hanswers a (List.mem_cons_of_mem _ ha)
    have hrel := hs.operation.responses e he
    rw [answerSchema, answerSchema]
    generalize hresponse : site.operation.responses.lookup e.1 = found at hrel ⊢
    generalize site'.operation.responses.lookup e.1 = found' at hrel ⊢
    cases hrel with
    | none => exact htail
    | @some response response' hrel =>
      have halike := h.follow_answer hsite he hresponse hrel
      dsimp only
      generalize follow .responses d.components.responses response = x,
        follow .responses d'.components.responses response' = x' at halike ⊢
      cases halike with
      | error => rfl
      | ok hb => rw [lift_ok, lift_ok, pure_bind, pure_bind, hb mediaType hmedia, htail]

theorem parameters_cases :
    (∃ e, Resolver.parameters d.components site = throw e ∧
        Resolver.parameters d'.components site' = throw e) ∨
      ∃ ps ps', Resolver.parameters d.components site = pure ps ∧
        Resolver.parameters d'.components site' = pure ps' ∧
        ∀ place, Parameter.group place ps = Parameter.group place ps' := by
  have hfilter := h.filter_placed_followed hsite hs
  rw [parameters_eq, parameters_eq]
  cases hps : followed d.components site with
  | error e =>
    cases hps' : followed d'.components site' with
    | error e' =>
      rw [hps, hps'] at hfilter
      obtain rfl := Except.error.inj hfilter
      exact .inl ⟨e, rfl, rfl⟩
    | ok ps' =>
      rw [hps, hps'] at hfilter
      cases hfilter
  | ok ps =>
    cases hps' : followed d'.components site' with
    | error e' =>
      rw [hps, hps'] at hfilter
      cases hfilter
    | ok ps' =>
      rw [hps, hps'] at hfilter
      exact .inr ⟨_, _, rfl, rfl, fun place => Parameter.group_mergeAll (Except.ok.inj hfilter)⟩

/-- The operations are resolved in the same way, in every state that a pass can be in. -/
theorem endpoint_same (base : String) (p : Pass) (g : Registry) :
    Same (p.Completes d.components.schemas (fun _ => True) g)
      (endpoint d.components base site) (endpoint d'.components base site') := by
  have hagree {a : Ask} (ha : site.Asks d.components a) :
      AgreeOn d.components.schemas d'.components.schemas a.outline :=
    fun s name hreaches hname =>
      h.schemas name (.inl ⟨s, ha.reaches_mem_references hsite hreaches, hname⟩)
  have hid : site'.operationId = site.operationId := by
    rw [Site.operationId, Site.operationId, hs.operation.operationId]
  have hanswers : ∀ a ∈ preferredAnswers, ∃ e ∈ answerTypes, a.1 = e.1 ∧ a.2 ∈ e.2 := by decide
  rw [endpoint_eq, endpoint_eq]
  obtain ⟨e, hps, hps'⟩ | ⟨ps, ps', hps, hps', hgroup⟩ := h.parameters_cases hsite hs
  · rw [hps, hps']
    exact .throw e
  · rw [hps, hps', pure_bind, pure_bind, ← Parameter.asked_congr hgroup, ← h.body_eq hsite hs,
      ← h.answerSchema_eq hsite hs hanswers]
    refine (askFields_same (fun f hf => hagree (.parameter hps hf)) []).bind fun fields => ?_
    refine (lift_steady _).bind_same fun body hbody => ?_
    refine (askFields_same (fun f hf => hagree (.body hbody hf)) fields).bind fun requestType => ?_
    refine (answerSchema_steady _ _).bind_same fun answer hanswer => ?_
    have hask : site'.answerAsk answer = site.answerAsk answer := by
      rw [Site.answerAsk, Site.answerAsk, Site.answerKey, Site.answerKey, hid]
    have hendpoint (t : TypeExpr) :
        Reading.endpoint ⟨ps', body.1, body.2, answer⟩ base site' requestType t =
          Reading.endpoint ⟨ps, body.1, body.2, answer⟩ base site requestType t := by
      simp only [Reading.endpoint, Site.bodyKey, hid, hs.path, hs.method, hgroup]
    simp only [hask, hendpoint]
    exact (resolve_same (hagree (.answer hanswer))).map

end Document.Agrees

/-- Descriptions that differ only in what is never looked at are resolved to the same resolution, or
fail with the same error. What is wrong in such a part of one of them is never the cause: the reference
of the error stands in both. -/
theorem Document.resolve_agrees {d d' : Document} (h : d.Agrees d') :
    d.resolve = d'.resolve ∧ ∀ e, d.resolve = .error e → e.Truthful d ∧ e.Truthful d' := by
  let start : Pass := { registry := .empty }
  have hstart : start.Sound d.components.schemas (fun _ => True) .empty :=
    .start Registry.Ordered.empty
  have hbase : Url.basePath d.servers = Url.basePath d'.servers := Url.basePath_congr h.servers
  have hsame : Resolver.Same (start.Completes d.components.schemas (fun _ => True) .empty)
      (Resolver.endpoints d) (Resolver.endpoints d') := by
    rw [Resolver.endpoints, Resolver.endpoints, ← hbase]
    exact .mapM h.sites_agree fun site site' hsite hs => h.endpoint_same hsite hs _ start .empty
  have hresolve : d.resolve = d'.resolve := by
    rw [resolve, resolve, endpoints_apply, endpoints_apply, hsame.eq start (.refl hstart)]
  exact ⟨hresolve, fun e he => ⟨truthful_of_error he, truthful_of_error (hresolve ▸ he)⟩⟩

def quietDocument : Document where
  servers := ["https://host/api/v1"]
  paths := [("/notes", {
    parameters := [.ref "#/components/parameters/Limit"]
    operation? := fun m => if m = .get then some {
      operationId := some "list"
      responses := [("200", .ref "#/components/responses/Notes")] }
      else none })]
  components := {
    schemas := [
      ("Note", .inline { type := some (.single "string") }),
      ("Loop", .ref "#/components/schemas/Loop")]
    parameters := [
      ("Limit", .inline { name := "limit", location := "query", type := some "integer" })]
    responses := [
      ("Notes", .inline ⟨[("application/json", some (.ref "#/components/schemas/Note"))]⟩)] }

/-- References with all kinds of faults, in parts that are never looked at. -/
def noisyDocument : Document where
  servers := ["https://host/api/v1", "https://mirror/v2"]
  paths := [("/notes", {
    parameters := [
      .inline { name := "trace", location := "header", schema := some (.ref "./trace.json") },
      .ref "#/components/parameters/Limit"]
    operation? := fun m => if m = .get then some {
      operationId := some "list"
      responses := [
        ("404", .ref "#/components/responses/Missing"),
        ("200", .ref "#/components/responses/Notes")] }
      else none })]
  components := {
    schemas := [
      ("Note", .inline { type := some (.single "string") }),
      ("Loop", .ref "#/components/schemas/Loop"),
      ("Unused", .inline { items := some (.ref "#/components/schemas/Missing") })]
    parameters := [
      ("Limit", .inline { name := "limit", location := "query", type := some "integer" })]
    responses := [
      ("Notes", .inline ⟨[
        ("text/plain", some (.ref "#/components/schemas/Loop")),
        ("application/json", some (.ref "#/components/schemas/Note"))]⟩)] }

theorem noisyDocument_agrees : noisyDocument.Agrees quietDocument where
  servers := rfl
  paths := by
    refine .cons ⟨rfl, rfl, fun m => ?_⟩ .nil
    cases m with
    | get =>
      refine .some ⟨rfl, rfl, rfl, fun e he => ?_⟩
      simp only [answerTypes, List.mem_cons, List.not_mem_nil, or_false] at he
      rcases he with rfl | rfl
      · exact .some .ref
      · exact .none
    | _ => exact .none
  schemas := by
    have hnoisy : ∀ o ∈ noisyDocument.references, Reference.component o.1 o.2 ≠ .ok "Unused" := by
      decide +kernel
    have hquiet : ∀ o ∈ quietDocument.references, Reference.component o.1 o.2 ≠ .ok "Unused" := by
      decide +kernel
    intro name hdenotes
    have hne : name ≠ "Unused" := by
      rintro rfl
      obtain ⟨r, hr, hname⟩ | ⟨r, hr, hname⟩ := hdenotes
      · exact hnoisy _ hr hname
      · exact hquiet _ hr hname
    have hunused : (name == "Unused") = false := beq_eq_false_iff_ne.mpr hne
    simp [noisyDocument, quietDocument, List.lookup_cons, hunused]
  parameters _ _ := rfl
  requestBodies _ _ := rfl
  responses := by
    intro e he r name _ _
    by_cases hname : name = "Notes"
    · subst hname
      refine .some (.inline fun m hm => ?_)
      simp only [answerTypes, List.mem_cons, List.not_mem_nil, or_false] at he
      have hm' : m = "application/json" ∨ m = "*/*" := by
        rcases he with rfl | rfl
        · simpa using hm
        · exact .inl (List.mem_singleton.mp hm)
      rcases hm' with rfl | rfl <;> rfl
    · have hother : (name == "Notes") = false := beq_eq_false_iff_ne.mpr hname
      simp [noisyDocument, quietDocument, List.lookup_cons, hother]

theorem resolve_agrees_noisy :
    noisyDocument.Agrees quietDocument ∧ noisyDocument.resolve = quietDocument.resolve ∧
      ∃ R, noisyDocument.resolve = .ok R ∧ R.operations.map (·.operationId) = ["list"] ∧
        R.definitions.names = ["Note"] := by
  have hrun : noisyDocument.resolve.toOption.map
      (fun R => (R.operations.map (·.operationId), R.definitions.names)) =
      some (["list"], ["Note"]) := by
    decide +kernel
  obtain ⟨R, h, hread⟩ := Document.resolve_of_map hrun
  exact ⟨noisyDocument_agrees, (Document.resolve_agrees noisyDocument_agrees).1, R, h,
    (Prod.mk.inj hread).1, (Prod.mk.inj hread).2⟩

end ApiClient

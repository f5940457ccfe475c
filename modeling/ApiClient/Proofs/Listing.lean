import ApiClient.Proofs.Endpoints

/-! The list of endpoints. A pass that ends well has gone through the operations one by one and has made
one endpoint of each; a resolution holds these endpoints in the order of their names. -/

namespace ApiClient

/-! ### Runs taken apart -/

namespace Resolver

variable {α β : Type} {c : Components} {schemas : List (String × RefOr Schema)} {p q : Pass}

theorem pure_eq_ok {a b : α} (h : (pure a : Resolver α) p = (.ok b, q)) : a = b ∧ p = q := by
  obtain ⟨hab, hpq⟩ := Prod.mk.inj h
  exact ⟨Except.ok.inj hab, hpq⟩

theorem bind_eq_ok {x : Resolver α} {f : α → Resolver β} {b : β} (h : (x >>= f) p = (.ok b, q)) :
    ∃ a z, x p = (.ok a, z) ∧ f a z = (.ok b, q) := by
  rcases hx : x p with ⟨e | a, z⟩
  · rw [bind_error hx] at h
    cases (Prod.mk.inj h).1
  · exact ⟨a, z, rfl, (bind_ok hx f).symm.trans h⟩

/-- A step that has nothing to do with the pass leaves it as it is. -/
theorem Steady.bind_eq_ok {x : Resolver α} {f : α → Resolver β} {b : β} (hx : Steady x)
    (h : (x >>= f) p = (.ok b, q)) : ∃ a, x = pure a ∧ f a p = (.ok b, q) := by
  obtain ⟨a, rfl⟩ | ⟨e, rfl⟩ := hx
  · exact ⟨a, rfl, h⟩
  · cases (Prod.mk.inj h).1

/-- Each result comes from its own element, in the state in which the elements before have left the
pass. -/
theorem mapM_splits {f : α → Resolver β} {as : List α} {bs : List β}
    (h : as.mapM f p = (.ok bs, q)) :
    List.Forall₂ (fun a b => ∃ before after bs' z z', as = before ++ a :: after ∧
      before.mapM f p = (.ok bs', z) ∧ f a z = (.ok b, z')) as bs := by
  induction as generalizing bs p q with
  | nil =>
    obtain ⟨rfl, -⟩ := pure_eq_ok h
    exact .nil
  | cons a as ih =>
    rw [List.mapM_cons] at h
    obtain ⟨b, y, hb, h⟩ := Resolver.bind_eq_ok h
    obtain ⟨bs, z, hbs, h⟩ := Resolver.bind_eq_ok h
    rw [← (pure_eq_ok h).1]
    refine .cons ⟨[], as, [], p, y, rfl, rfl, hb⟩ ((ih hbs).imp ?_)
    rintro a' b' ⟨before, after, bs', y', z', rfl, hbefore, hb'⟩
    refine ⟨a :: before, after, b :: bs', y', z', rfl, ?_, hb'⟩
    rw [List.mapM_cons, bind_ok hb, bind_ok hbefore]
    rfl

/-- Resolving the types of fields first and putting them in their places afterwards is the same. -/
theorem askFields_eq (asks : List (FieldKey × Ask)) (fields : Fields) :
    askFields schemas asks fields = do
      let ts ← asks.mapM fun (f : FieldKey × Ask) => f.2.resolve schemas
      return ((asks.map (·.1)).zip ts).foldl (fun table f => Assoc.put f.1 f.2 table) fields := by
  induction asks generalizing fields with
  | nil => rfl
  | cons f asks ih => simp [askFields, ih]

/-- What an operation is made into: its types are resolved in the order in which it asks for them, and
its endpoint is put together from them. -/
theorem endpoint_eq_ok {base : String} {site : Site} {ep : Endpoint}
    (h : endpoint c base site p = (.ok ep, q)) :
    ∃ R types responseType z, site.Reads c R ∧
      R.fields.mapM (fun f => f.2.resolve c.schemas) p = (.ok types, z) ∧
      (site.answerAsk R.answer).resolve c.schemas z = (.ok responseType, q) ∧
      ep = R.endpoint base site (Assoc.ofList ((R.fields.map (·.1)).zip types)) responseType := by
  simp only [endpoint_eq, askFields_eq, bind_assoc, pure_bind] at h
  obtain ⟨ps, hps, h⟩ := (parameters_steady site).bind_eq_ok h
  obtain ⟨ts, y, hts, h⟩ := bind_eq_ok h
  obtain ⟨body, hbody, h⟩ := (lift_steady (site.body c)).bind_eq_ok h
  obtain ⟨us, z, hus, h⟩ := bind_eq_ok h
  obtain ⟨answer, hanswer, h⟩ := (answerSchema_steady _ _).bind_eq_ok h
  obtain ⟨t, z', ht, h⟩ := bind_eq_ok h
  obtain ⟨rfl, rfl⟩ := pure_eq_ok h
  refine ⟨⟨ps, body.1, body.2, answer⟩, ts ++ us, t, z, ⟨hps, hbody, hanswer⟩, ?_, ht, ?_⟩
  · rw [Reading.fields, List.mapM_append, bind_ok hts, bind_ok hus]
    rfl
  · have hlength : ((Parameter.asked ps).map Parameter.field |>.map (·.1)).length = ts.length := by
      rw [List.length_map, (mapM_splits hts).length_eq]
    rw [Reading.fields, List.map_append, List.zip_append hlength, Assoc.ofList, List.foldl_append]

end Resolver

/-! ### Stable sorting -/

section

variable {α κ : Type} {key : α → κ} {as bs : List α}

theorem mem_of_filter_key_eq [DecidableEq κ]
    (h : ∀ k, as.filter (fun a => key a = k) = bs.filter fun b => key b = k) {a : α} (ha : a ∈ as) :
    a ∈ bs := by
  have hmem : a ∈ as.filter fun x => key x = key a := List.mem_filter.mpr ⟨ha, by simp⟩
  rw [h] at hmem
  exact (List.mem_filter.mp hmem).1

/-- Lists in the order of their keys are the same if they hold the same under each key, in the same
order. -/
theorem eq_of_filter_key_eq [PartialOrder κ] [DecidableEq κ]
    (has : as.Pairwise fun a b => key a ≤ key b) (hbs : bs.Pairwise fun a b => key a ≤ key b)
    (h : ∀ k, as.filter (fun a => key a = k) = bs.filter fun b => key b = k) : as = bs := by
  induction as generalizing bs with
  | nil =>
    cases bs with
    | nil => rfl
    | cons b bs => exact absurd (mem_of_filter_key_eq (fun k => (h k).symm) List.mem_cons_self) (by simp)
  | cons a as ih =>
    cases bs with
    | nil => exact absurd (mem_of_filter_key_eq h List.mem_cons_self) (by simp)
    | cons b bs =>
      rw [List.pairwise_cons] at has hbs
      -- both lists begin with the least key
      have hab : key a ≤ key b := by
        rcases List.mem_cons.mp (mem_of_filter_key_eq (fun k => (h k).symm) List.mem_cons_self)
          with rfl | hb
        · exact le_rfl
        · exact has.1 b hb
      have hba : key b ≤ key a := by
        rcases List.mem_cons.mp (mem_of_filter_key_eq h List.mem_cons_self) with rfl | ha
        · exact le_rfl
        · exact hbs.1 a ha
      have hfirst := h (key a)
      simp only [List.filter_cons, le_antisymm hba hab, decide_true, if_true] at hfirst
      obtain ⟨rfl, -⟩ := List.cons.inj hfirst
      have hrest (k : κ) : as.filter (fun a => key a = k) = bs.filter fun b => key b = k := by
        have hk := h k
        simp only [List.filter_cons] at hk
        split at hk
        · exact (List.cons.inj hk).2
        · exact hk
      rw [ih has.2 hbs.2 hrest]

/-- The order in which a resolution sorts, by the code points of the keys. -/
def inOrder (key : α → String) (a b : α) : Bool := !decide (key b < key a)

variable {key : α → String} {a b : α}

theorem inOrder_iff : inOrder key a b = true ↔ key a ≤ key b := by
  rw [inOrder, Bool.not_eq_true', decide_eq_false_iff_not, not_lt]

theorem inOrder_trans (key : α → String) (a b c : α) (hab : inOrder key a b = true)
    (hbc : inOrder key b c = true) : inOrder key a c = true :=
  inOrder_iff.mpr ((inOrder_iff.mp hab).trans (inOrder_iff.mp hbc))

theorem inOrder_total (key : α → String) (a b : α) :
    (inOrder key a b || inOrder key b a) = true := by
  rw [Bool.or_eq_true, inOrder_iff, inOrder_iff]
  exact le_total (key a) (key b)

theorem pairwise_mergeSort_inOrder (key : α → String) (as : List α) :
    (as.mergeSort (inOrder key)).Pairwise fun a b => key a ≤ key b :=
  (List.pairwise_mergeSort (inOrder_trans key) (inOrder_total key) as).imp inOrder_iff.mp

/-- What has the same key keeps its order. -/
theorem filter_mergeSort_inOrder (key : α → String) (as : List α) (k : String) :
    (as.mergeSort (inOrder key)).filter (fun a => key a = k) = as.filter fun a => key a = k := by
  have hequal : (as.filter fun a => key a = k).Pairwise fun a b => inOrder key a b = true := by
    refine List.pairwise_of_forall_mem_list fun a ha b hb => inOrder_iff.mpr ?_
    rw [of_decide_eq_true (List.mem_filter.mp ha).2, of_decide_eq_true (List.mem_filter.mp hb).2]
  have hsub := (List.sublist_mergeSort (inOrder_trans key) (inOrder_total key) hequal
    List.filter_sublist).filter fun a => key a = k
  simp only [List.filter_filter, Bool.and_self] at hsub
  have hlength := ((List.mergeSort_perm as (inOrder key)).filter fun a => key a = k).length_eq
  exact (hsub.eq_of_length hlength.symm).symm

end

/-! ### The endpoints of a description -/

/-- The operations of a description, path by path and under each path in the order of the methods: for
each its address, its method and its name. -/
def Document.listing (d : Document) : List (String × Method × String) :=
  d.paths.flatMap fun e =>
    [Method.get, .put, .post, .delete, .options, .head, .patch, .trace].filterMap fun m =>
      (e.2.operation? m).map fun op =>
        (Url.request (Url.basePath d.servers) e.1, m, op.operationId.getD "")

theorem Document.listing_eq (d : Document) :
    d.listing = d.sites.map fun site =>
      (Url.request (Url.basePath d.servers) site.path, site.method, site.operationId) := by
  rw [listing, sites, List.map_flatMap]
  refine List.flatMap_congr fun e _ => ?_
  obtain ⟨path, item⟩ := e
  dsimp only
  rw [PathItem.operations, List.map_map, List.map_filterMap]
  refine List.filterMap_congr fun m _ => ?_
  cases item.operation? m <;> rfl

theorem Document.resolve_eq_sorted {d : Document} {R : Resolution} (h : d.resolve = .ok R) :
    ∃ eps q, Resolver.endpoints d { registry := .empty } = (.ok eps, q) ∧ q.registry = R.definitions ∧
      R.operations = eps.mergeSort (inOrder (·.operationId)) := by
  rw [Document.resolve, endpoints_apply] at h
  rcases hrun : Resolver.endpoints d { registry := .empty } with ⟨e | eps, q⟩
  · rw [hrun] at h
    cases h
  · rw [hrun] at h
    obtain rfl := Except.ok.inj h
    exact ⟨eps, q, rfl, rfl, rfl⟩

/-- One endpoint for each operation of a description that is resolved, none of them lost and none made
twice. They are resolved in the order of the description. The resolution has them in the order of their
names, where those of one name stay in the order of the description. -/
theorem Document.resolve_lists {d : Document} {R : Resolution} (h : d.resolve = .ok R) :
    ∃ eps, d.endpoints .empty = (.ok eps, R.definitions) ∧
      eps.map (fun ep => (ep.url, ep.method, ep.operationId)) = d.listing ∧
      ∀ ops : List Endpoint, ops = R.operations ↔
        ops.Perm eps ∧ (ops.Pairwise fun a b => a.operationId ≤ b.operationId) ∧
          ∀ id, ops.filter (fun ep => ep.operationId = id) =
            eps.filter fun ep => ep.operationId = id := by
  obtain ⟨eps, q, hrun, hR, hsorted⟩ := resolve_eq_sorted h
  refine ⟨eps, ?_, ?_, fun ops => ⟨?_, fun ⟨_, hpairwise, hfilter⟩ => ?_⟩⟩
  · rw [endpoints_apply, hrun, hR]
  · rw [listing_eq]
    have hsites := Resolver.mapM_splits hrun
    rw [← List.forall₂_eq_eq_eq, List.forall₂_map_left_iff, List.forall₂_map_right_iff]
    refine hsites.flip.imp ?_
    rintro ep site ⟨-, -, -, z, z', -, -, hep⟩
    obtain ⟨W, types, t, y, -, -, -, rfl⟩ := Resolver.endpoint_eq_ok hep
    rfl
  · rintro rfl
    rw [hsorted]
    exact ⟨List.mergeSort_perm _ _, pairwise_mergeSort_inOrder _ eps, filter_mergeSort_inOrder _ eps⟩
  · rw [hsorted]
    refine eq_of_filter_key_eq hpairwise (pairwise_mergeSort_inOrder _ eps) fun id => ?_
    rw [hfilter, filter_mergeSort_inOrder]

/-- Three operations, two of them without a name. -/
def unnamedDocument : Document where
  servers := ["https://host/api/v1"]
  paths := [
    ("/notes", {
      operation? := fun m => match m with
        | .get => some {}
        | .post => some { operationId := some "add" }
        | _ => none }),
    ("/about", { operation? := fun m => if m = .get then some {} else none })]

theorem resolve_lists_unnamed :
    ∃ R eps, unnamedDocument.resolve = .ok R ∧
      unnamedDocument.endpoints .empty = (.ok eps, R.definitions) ∧
      eps.map (fun ep => (ep.url, ep.method, ep.operationId)) =
        [("/v1/notes", .get, ""), ("/v1/notes", .post, "add"), ("/v1/about", .get, "")] ∧
      R.operations.map (fun ep => (ep.url, ep.method, ep.operationId)) =
        [("/v1/notes", .get, ""), ("/v1/about", .get, ""), ("/v1/notes", .post, "add")] ∧
      (R.operations.Perm eps ∧ (R.operations.Pairwise fun a b => a.operationId ≤ b.operationId) ∧
        ∀ id, R.operations.filter (fun ep => ep.operationId = id) =
          eps.filter fun ep => ep.operationId = id) := by
  have hrun : unnamedDocument.resolve.toOption.map
      (fun R => R.operations.map fun ep => (ep.url, ep.method, ep.operationId)) =
      some [("/v1/notes", .get, ""), ("/v1/about", .get, ""), ("/v1/notes", .post, "add")] := by
    cbv
  obtain ⟨R, h, hoperations⟩ := Document.resolve_of_map hrun
  obtain ⟨eps, hpass, hlisting, hsorted⟩ := Document.resolve_lists h
  exact ⟨R, eps, h, hpass, hlisting.trans (by decide +kernel), hoperations,
    (hsorted R.operations).mp rfl⟩

end ApiClient

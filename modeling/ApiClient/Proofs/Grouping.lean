import ApiClient.Proofs.Clashes

/-! The groups of parameters. Of the parameters that a path and an operation give to one name and location
the last one stays, and it stands where the first one stood. -/

namespace ApiClient

/-- The locations of the parameters in a place of the request. -/
def Place.locations : Place → List String
  | .path => ["path"]
  | .query => ["query"]
  | .body => ["body"]
  | .form => ["cookie", "formData"]

theorem Place.ofLocation?_eq_some_iff {location : String} {place : Place} :
    ofLocation? location = some place ↔ location ∈ place.locations := by
  rw [ofLocation?]
  split_ifs with hpath hquery hbody hform
  · subst hpath
    cases place <;> decide
  · subst hquery
    cases place <;> decide
  · subst hbody
    cases place <;> decide
  · rcases hform with rfl | rfl <;> cases place <;> decide
  · rw [not_or] at hform
    cases place <;> simp [locations, hpath, hquery, hbody, hform]

namespace Parameter

variable {p q : Parameter} {ps : List Parameter} {place : Place}

/-- No parameter after this one has its name and location. -/
def Final (ps : List Parameter) (p : Parameter) : Prop :=
  ∃ before after, ps = before ++ p :: after ∧ ∀ q ∈ after, q.slot ≠ p.slot

/-! ### Merged parameters as a table -/

def entry (p : Parameter) : (String × String) × Parameter := (p.slot, p)

theorem map_entry_merge (p : Parameter) (ps : List Parameter) :
    (p.merge ps).map entry = Assoc.put p.slot p (ps.map entry) := by
  induction ps with
  | nil => rfl
  | cons q ps ih =>
    rw [merge, List.map_cons, entry, Assoc.put]
    by_cases hsame : q.slot = p.slot
    · rw [if_pos (samePlace_iff.mpr hsame.symm), if_pos (beq_iff_eq.mpr hsame), hsame]
      rfl
    · rw [if_neg (mt samePlace_iff.mp (Ne.symm hsame)), if_neg (by simpa using hsame), List.map_cons, ih]
      rfl

theorem mergeAll_append_singleton (ps : List Parameter) (p : Parameter) :
    mergeAll (ps ++ [p]) = p.merge (mergeAll ps) := List.foldl_append

theorem map_entry_mergeAll (ps : List Parameter) :
    (mergeAll ps).map entry = Assoc.ofList (ps.map entry) := by
  induction ps using List.reverseRecOn with
  | nil => rfl
  | append_singleton ps p ih =>
    rw [mergeAll_append_singleton, map_entry_merge, ih, List.map_append]
    exact (Assoc.ofList_append_singleton _ p.slot p).symm

theorem last_iff_final : Assoc.Last (ps.map entry) p.slot p ↔ Final ps p := by
  constructor
  · rintro ⟨before, after, h, hafter⟩
    obtain ⟨first, rest, rfl, -, hrest⟩ := List.map_eq_append_iff.mp h
    obtain ⟨q, rest, rfl, hq, rfl⟩ := List.map_eq_cons_iff.mp hrest
    obtain rfl : q = p := congrArg Prod.snd hq
    exact ⟨first, rest, rfl, fun r hr => hafter r.entry (List.mem_map_of_mem hr)⟩
  · rintro ⟨before, after, rfl, hafter⟩
    refine ⟨before.map entry, after.map entry, by simp [entry], fun e he => ?_⟩
    obtain ⟨q, hq, rfl⟩ := List.mem_map.mp he
    exact hafter q hq

/-- Of the parameters with one name and location the last one stays. -/
theorem mem_mergeAll_iff : p ∈ mergeAll ps ↔ Final ps p := by
  rw [← last_iff_final, ← Assoc.mem_ofList_iff, ← map_entry_mergeAll]
  refine ⟨fun h => List.mem_map_of_mem h, fun h => ?_⟩
  obtain ⟨q, hq, heq⟩ := List.mem_map.mp h
  obtain rfl : q = p := congrArg Prod.snd heq
  exact hq

/-! ### The order of merged parameters -/

theorem mem_slots_mergeAll (ps : List Parameter) {s : String × String} :
    s ∈ (mergeAll ps).map slot ↔ s ∈ ps.map slot := by
  have hslots (qs : List Parameter) : qs.map slot = (qs.map entry).map (·.1) := by
    rw [List.map_map]
    rfl
  rw [hslots, hslots, map_entry_mergeAll]
  exact Assoc.mem_keys_ofList

/-- A name and location stand where they stood first. -/
theorem slots_mergeAll_ordered (ps : List Parameter) :
    ((mergeAll ps).map slot).Pairwise fun s t => (ps.map slot).idxOf s < (ps.map slot).idxOf t := by
  induction ps using List.reverseRecOn with
  | nil => exact .nil
  | append_singleton ps p ih =>
    have hidx (s : String × String) (hs : s ∈ (mergeAll ps).map slot) :
        ((ps ++ [p]).map slot).idxOf s = (ps.map slot).idxOf s := by
      rw [List.map_append]
      exact List.idxOf_append_of_mem ((mem_slots_mergeAll ps).mp hs)
    have hold : ((mergeAll ps).map slot).Pairwise fun s t =>
        ((ps ++ [p]).map slot).idxOf s < ((ps ++ [p]).map slot).idxOf t :=
      ih.imp_of_mem fun hs ht h => by rwa [hidx _ hs, hidx _ ht]
    rw [mergeAll_append_singleton, slots_merge]
    split_ifs with hmem
    · exact hold
    · refine List.pairwise_append.mpr ⟨hold, List.pairwise_singleton _ _, fun s hs t ht => ?_⟩
      obtain rfl := List.mem_singleton.mp ht
      rw [hidx s hs, List.map_append,
        List.idxOf_append_of_notMem (mt (mem_slots_mergeAll ps).mpr hmem)]
      have hlt := List.idxOf_lt_length_of_mem ((mem_slots_mergeAll ps).mp hs)
      omega

/-! ### Groups -/

/-- The group of a place: each name and location that is given to the place stands in it once, where it
was first given, with the parameter that was given last. -/
structure Groups (given : List Parameter) (place : Place) (kept : List Parameter) : Prop where
  mem_iff : ∀ p, p ∈ kept ↔ p.location ∈ place.locations ∧ Final given p
  once : ∀ p ∈ given, p.location ∈ place.locations → (kept.map slot).count p.slot = 1
  ordered : kept.Pairwise fun p q => (given.map slot).idxOf p.slot < (given.map slot).idxOf q.slot

theorem mem_group_iff : p ∈ group place ps ↔ p ∈ ps ∧ p.location ∈ place.locations := by
  rw [group, List.mem_filter, beq_iff_eq, Place.ofLocation?_eq_some_iff]

theorem group_sublist (place : Place) (ps : List Parameter) : (group place ps).Sublist ps :=
  List.filter_sublist

theorem groups_mergeAll (ps : List Parameter) (place : Place) :
    Groups ps place (group place (mergeAll ps)) where
  mem_iff p := by rw [mem_group_iff, mem_mergeAll_iff, and_comm]
  once p hp hplace := by
    have hnodup := (nodup_slots_mergeAll ps).sublist ((group_sublist place (mergeAll ps)).map slot)
    refine List.count_eq_one_of_mem hnodup ?_
    obtain ⟨q, hq, hslot⟩ := List.mem_map.mp ((mem_slots_mergeAll ps).mpr (List.mem_map_of_mem hp))
    have hlocation : q.location = p.location := congrArg Prod.snd hslot
    rw [← hslot]
    exact List.mem_map_of_mem (mem_group_iff.mpr ⟨hq, hlocation ▸ hplace⟩)
  ordered := (List.pairwise_map.mp (slots_mergeAll_ordered ps)).sublist (group_sublist place _)

/-- A group of one location has no name twice. -/
theorem nodup_names {location : String} (hplace : place.locations = [location])
    (h : (ps.map slot).Nodup) : ((group place ps).map (·.name)).Nodup := by
  have hslots : (group place ps).map slot = ((group place ps).map (·.name)).map (·, location) := by
    rw [List.map_map]
    refine List.map_congr_left fun p hp => ?_
    have hp' := (mem_group_iff.mp hp).2
    rw [hplace, List.mem_singleton] at hp'
    simp [slot, hp']
  have hnodup := h.sublist ((group_sublist place ps).map slot)
  rw [hslots] at hnodup
  exact hnodup.of_map

end Parameter

/-- The parameters of a path and an operation, as far as all of them can be followed, fill the groups of
the operation, and the endpoint lists their names group by group. -/
theorem Resolver.parameters_grouped {c : Components} {site : Site} {given : List Parameter}
    (h : followed c site = .ok given) :
    ∃ ps, parameters c site = pure ps ∧
      (∀ place, Parameter.Groups given place (Parameter.group place ps)) ∧
      (∀ p : Parameter, p.location ∉ ["path", "query", "body", "cookie", "formData"] →
        ∀ place, p ∉ Parameter.group place ps) ∧
      ∀ base p ep q, endpoint c base site p = (.ok ep, q) →
        ep.pathParams = (Parameter.group .path ps).map (·.name) ∧
        ep.queryParams = (Parameter.group .query ps).map (·.name) ∧
        (Parameter.group .body ps).map (·.name) <+: ep.bodyParams ∧
        ep.formParams = (Parameter.group .form ps).map (·.name) ∧
        ep.pathParams.Nodup ∧ ep.queryParams.Nodup := by
  have hps : parameters c site = pure (Parameter.mergeAll given) := by
    rw [parameters_eq, h]
    rfl
  refine ⟨Parameter.mergeAll given, hps, Parameter.groups_mergeAll given, fun p hp place hmem => ?_,
    fun base p ep q hep => ?_⟩
  · have hplace := (Parameter.mem_group_iff.mp hmem).2
    cases place <;> simp_all [Place.locations]
  · obtain ⟨ps, body, hgathers⟩ := endpoint_gathers hep
    obtain rfl : ps = Parameter.mergeAll given := pure_injective (hgathers.readsParameters.symm.trans hps)
    have hnodup := Parameter.nodup_slots_mergeAll given
    refine ⟨hgathers.pathParams, hgathers.queryParams, ?_, hgathers.formParams, ?_, ?_⟩
    · rw [hgathers.bodyParams]
      exact List.prefix_append _ _
    · rw [hgathers.pathParams]
      exact Parameter.nodup_names rfl hnodup
    · rw [hgathers.queryParams]
      exact Parameter.nodup_names rfl hnodup

/-- Parameters that are repeated on either level and across them, one of them through two references. -/
def repeatedComponents : Components where
  parameters := [
    ("Page", .ref "#/components/parameters/Number"),
    ("Number", .inline { name := "page", location := "query", required := true })]

def repeatedSite : Site where
  path := "/notes/\x7bid\x7d"
  method := .get
  item := { parameters := [
    .inline { name := "id", location := "path", type := some "string" },
    .ref "#/components/parameters/Page",
    .inline { name := "session", location := "cookie" },
    .inline { name := "trace", location := "header" },
    .inline { name := "id", location := "path", type := some "integer" }] }
  operation := { parameters := [
    .inline { name := "session", location := "formData" },
    .inline { name := "id", location := "query" },
    .inline { name := "page", location := "query", type := some "integer" },
    .inline { name := "id", location := "path", required := true }] }

theorem parameters_grouped_repeated :
    ∃ given ps, Resolver.followed repeatedComponents repeatedSite = .ok given ∧
      given.map (·.name) = ["id", "page", "session", "trace", "id", "session", "id", "page", "id"] ∧
      Resolver.parameters repeatedComponents repeatedSite = pure ps ∧
      (Parameter.group .path ps).map (fun p => (p.name, p.required)) = [("id", true)] ∧
      (Parameter.group .query ps).map (fun p => (p.name, p.type)) =
        [("page", some "integer"), ("id", none)] ∧
      (Parameter.group .form ps).map Parameter.slot =
        [("session", "cookie"), ("session", "formData")] ∧
      (∀ place, Parameter.Groups given place (Parameter.group place ps)) ∧
      ∃ ep q, Resolver.endpoint repeatedComponents "" repeatedSite { registry := .empty } = (.ok ep, q) ∧
        ep.pathParams.Nodup ∧ ep.queryParams.Nodup := by
  have hnames : (Resolver.followed repeatedComponents repeatedSite).toOption.map (·.map (·.name)) =
      some ["id", "page", "session", "trace", "id", "session", "id", "page", "id"] := by decide +kernel
  have hkept : (Resolver.parameters repeatedComponents repeatedSite { registry := .empty }).1.toOption.map
      (fun ps => ((Parameter.group .path ps).map (fun p => (p.name, p.required)),
        (Parameter.group .query ps).map (fun p => (p.name, p.type)),
        (Parameter.group .form ps).map Parameter.slot)) =
      some ([("id", true)], [("page", some "integer"), ("id", none)],
        [("session", "cookie"), ("session", "formData")]) := by decide +kernel
  have hmade : (Resolver.endpoint repeatedComponents "" repeatedSite
      { registry := .empty }).1.toOption.isSome = true := by decide +kernel
  cases hfollowed : Resolver.followed repeatedComponents repeatedSite with
  | error e =>
    rw [hfollowed] at hnames
    cases hnames
  | ok given =>
    obtain ⟨ps, hps, hgroups, -, hendpoint⟩ := Resolver.parameters_grouped hfollowed
    rw [hfollowed] at hnames
    rw [hps] at hkept
    obtain ⟨hpath, hrest⟩ := Prod.mk.inj (Option.some.inj hkept)
    obtain ⟨hquery, hform⟩ := Prod.mk.inj hrest
    refine ⟨given, ps, rfl, Option.some.inj hnames, hps, hpath, hquery, hform, hgroups, ?_⟩
    rcases hrun : Resolver.endpoint repeatedComponents "" repeatedSite { registry := .empty } with ⟨r, q⟩
    rw [hrun] at hmade
    cases r with
    | error e => cases hmade
    | ok ep =>
      obtain ⟨-, -, -, -, hnodup⟩ := hendpoint _ _ _ _ hrun
      exact ⟨ep, q, rfl, hnodup⟩

end ApiClient

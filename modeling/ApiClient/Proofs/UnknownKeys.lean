import ApiClient.Proofs.RecordReading

/-! Keys that name no field. Keys that the records of a description do not know may be added to them
anywhere, at any depth and with any values, and the description is read as before. -/

namespace ApiClient

open Format
open ApiClient.Tree (strict)

/-- In one of its records, the value `v'` has a key more than `v`: one that names no field of the record,
and is not the key of a reference where a reference may stand. A reference that does stand in the place of
a record may get any other key. -/
inductive Padded : Expected → Json → Json → Prop
  | key {k : RecordKind} {before after : List (String × Json)} {key : String} {x : Json} :
    key ∉ k.names → (k.referable → key ≠ "$ref") →
      Padded (.record k) (.obj (before ++ after)) (.obj (before ++ (key, x) :: after))
  | beside {k : RecordKind} {before after : List (String × Json)} {key r : String} {x : Json} :
    k.referable → key ≠ "$ref" →
      (before ++ after).filter (fun f => f.1 == "$ref") = [("$ref", .str r)] →
        Padded (.record k) (.obj (before ++ after)) (.obj (before ++ (key, x) :: after))
  | field {k : RecordKind} {before after : List (String × Json)} {name : String} {e : Expected}
    {v v' : Json} : k.parts.lookup name = some e → Padded e v v' →
      Padded (.record k) (.obj (before ++ (name, v) :: after)) (.obj (before ++ (name, v') :: after))
  | place {k : RecordKind} {before after : List Json} {name : String} {e : Expected} {v v' : Json} :
    k.names[before.length]? = some name → k.parts.lookup name = some e → Padded e v v' →
      Padded (.record k) (.arr (before ++ v :: after)) (.arr (before ++ v' :: after))
  | item {e : Expected} {before after : List Json} {v v' : Json} : Padded e v v' →
      Padded (.list e) (.arr (before ++ v :: after)) (.arr (before ++ v' :: after))
  | entry {e : Expected} {before after : List (String × Json)} {key : String} {v v' : Json} :
    Padded e v v' →
      Padded (.table e) (.obj (before ++ (key, v) :: after)) (.obj (before ++ (key, v') :: after))

/-! ### Fields among other keys -/

namespace Json

theorem toTrees_append (vs us : List Json) :
    toTrees (vs ++ us) = toTrees vs ++ toTrees us := by
  induction vs with
  | nil => rfl
  | cons v vs ih => rw [List.cons_append, toTrees, toTrees, ih, List.cons_append]

theorem length_toTrees (vs : List Json) : (toTrees vs).length = vs.length := by
  induction vs with
  | nil => rfl
  | cons v vs ih => rw [toTrees, List.length_cons, List.length_cons, ih]

end Json

namespace Tree

variable {names : List String} {before after : List (String × Json)} {name : String} {v v' : Json}

/-- The fields of an object, one key after the other. -/
theorem knownFields_cons (names : List String) (key : String) (v : Json) (fs : List (String × Json)) :
    knownFields names (Json.toEntries ((key, v) :: fs)) =
      (knownFields names (Json.toEntries fs)).bind fun fields =>
        if key ∈ names then
          if key ∈ fields.map (·.1) then none else some ((key, v.toTree) :: fields)
        else some fields := by
  rw [Json.toEntries, knownFields]
  show (some (if names.contains key then some key else none)).bind _ = _
  rw [Option.bind_some]
  refine Option.bind_congr fun fields _ => ?_
  by_cases hkey : key ∈ names
  · simp only [List.contains_iff_mem, hkey, if_true]
    rfl
  · simp only [List.contains_iff_mem, hkey, if_false]
    rfl

theorem knownFields_insert (h : name ∉ names) (before after : List (String × Json)) (v : Json) :
    knownFields names (Json.toEntries (before ++ (name, v) :: after)) =
      knownFields names (Json.toEntries (before ++ after)) := by
  induction before with
  | nil =>
    rw [List.nil_append, List.nil_append, knownFields_cons]
    simp [h]
  | cons f before ih =>
    obtain ⟨key, u⟩ := f
    rw [List.cons_append, List.cons_append, knownFields_cons, knownFields_cons, ih]

/-- Fields of the same names whose values are related. -/
abbrev Fieldwise (R : String → Tree → Tree → Prop) : List (String × Tree) → List (String × Tree) → Prop :=
  List.Forall₂ fun f f' => f.1 = f'.1 ∧ R f.1 f.2 f'.2

theorem Fieldwise.keys_eq {R : String → Tree → Tree → Prop} {fs fs' : List (String × Tree)}
    (h : Fieldwise R fs fs') : fs.map (·.1) = fs'.map (·.1) := by
  induction h with
  | nil => rfl
  | cons hf _ ih => rw [List.map_cons, List.map_cons, hf.1, ih]

theorem Fieldwise.lookup {R : String → Tree → Tree → Prop} {fs fs' : List (String × Tree)}
    (h : Fieldwise R fs fs') (name : String) : Option.Rel (R name) (fs.lookup name) (fs'.lookup name) := by
  induction h with
  | nil => exact .none
  | @cons f f' fs fs' hf _ ih =>
    obtain ⟨key, t⟩ := f
    obtain ⟨key', t'⟩ := f'
    obtain ⟨rfl, hR⟩ := hf
    by_cases hname : name = key
    · subst hname
      rw [List.lookup_cons_self, List.lookup_cons_self]
      exact .some hR
    · have hne : (name == key) = false := beq_eq_false_iff_ne.mpr hname
      rw [List.lookup_cons, List.lookup_cons, hne]
      exact ih

/-- A field whose value is changed is changed among the fields that are known. -/
theorem knownFields_change {R : String → Tree → Tree → Prop} (hR : ∀ name t, R name t t)
    (h : R name v.toTree v'.toTree) (before after : List (String × Json)) :
    Option.Rel (Fieldwise R) (knownFields names (Json.toEntries (before ++ (name, v) :: after)))
      (knownFields names (Json.toEntries (before ++ (name, v') :: after))) := by
  have hrefl (fs : List (String × Tree)) : Fieldwise R fs fs :=
    List.forall₂_same.mpr fun f _ => ⟨rfl, hR f.1 f.2⟩
  induction before with
  | nil =>
    rw [List.nil_append, List.nil_append, knownFields_cons, knownFields_cons]
    cases knownFields names (Json.toEntries after) with
    | none => exact .none
    | some fields =>
      rw [Option.bind_some, Option.bind_some]
      split_ifs
      · exact .none
      · exact .some (.cons ⟨rfl, h⟩ (hrefl fields))
      · exact .some (hrefl fields)
  | cons f before ih =>
    obtain ⟨key, u⟩ := f
    rw [List.cons_append, List.cons_append, knownFields_cons, knownFields_cons]
    generalize knownFields names (Json.toEntries (before ++ (name, v) :: after)) = x,
      knownFields names (Json.toEntries (before ++ (name, v') :: after)) = x' at ih
    cases ih with
    | none => exact .none
    | @some fields fields' hfields =>
      rw [Option.bind_some, Option.bind_some, Fieldwise.keys_eq hfields]
      split_ifs
      · exact .none
      · exact .some (.cons ⟨rfl, hR _ _⟩ hfields)
      · exact .some hfields

theorem zip_change {R : String → Tree → Tree → Prop} (hR : ∀ name t, R name t t) {t t' : Tree}
    (h : R name t t') (before after : List Tree) (hname : names[before.length]? = some name) :
    Fieldwise R (names.zip (before ++ t :: after)) (names.zip (before ++ t' :: after)) := by
  induction before generalizing names with
  | nil =>
    cases names with
    | nil => cases hname
    | cons n names =>
      obtain rfl : n = name := by simpa using hname
      exact .cons ⟨rfl, h⟩ (List.forall₂_same.mpr fun f _ => ⟨rfl, hR f.1 f.2⟩)
  | cons u before ih =>
    cases names with
    | nil => cases hname
    | cons n names => exact .cons ⟨rfl, hR n u⟩ (ih (by simpa using hname))

theorem referred?_insert (h : name ≠ "$ref") (before after : List (String × Json)) (v : Json) :
    (Json.obj (before ++ (name, v) :: after)).toTree.referred? =
      (Json.obj (before ++ after)).toTree.referred? :=
  congrArg (fun fields : Option (List (String × Tree)) =>
      fields.bind fun fields => fields.lookup "$ref" >>= Tree.str?)
    (knownFields_insert (List.mem_singleton.not.mpr h) before after v)

theorem knownFields_of_filter_nil {fs : List (String × Json)} (h : fs.filter (fun f => f.1 == name) = []) :
    knownFields [name] (Json.toEntries fs) = some [] := by
  induction fs with
  | nil => rfl
  | cons f fs ih =>
    obtain ⟨key, v⟩ := f
    rw [List.filter_cons] at h
    split_ifs at h with hkey
    rw [knownFields_cons, ih h, Option.bind_some, if_neg (by simpa using hkey)]

theorem knownFields_of_filter_singleton {fs : List (String × Json)}
    (h : fs.filter (fun f => f.1 == name) = [(name, v)]) :
    knownFields [name] (Json.toEntries fs) = some [(name, v.toTree)] := by
  induction fs with
  | nil => cases h
  | cons f fs ih =>
    obtain ⟨key, u⟩ := f
    rw [List.filter_cons] at h
    split_ifs at h with hkey
    · obtain ⟨hf, hrest⟩ := List.cons.inj h
      obtain ⟨rfl, rfl⟩ := Prod.mk.inj hf
      rw [knownFields_cons, knownFields_of_filter_nil hrest, Option.bind_some,
        if_pos (List.mem_singleton_self _), List.map_nil, if_neg List.not_mem_nil]
    · rw [knownFields_cons, ih h, Option.bind_some, if_neg (by simpa using hkey)]

/-- An object with one `$ref`, a string, is a reference. -/
theorem referred?_of_filter {fs : List (String × Json)} {r : String}
    (h : fs.filter (fun f => f.1 == "$ref") = [("$ref", .str r)]) :
    (Json.obj fs).toTree.referred? = some r := by
  show (knownFields ["$ref"] (Json.toEntries fs)).bind _ = _
  rw [knownFields_of_filter_singleton h]
  rfl

/-- The table that an object is read as. -/
theorem tableOf_obj {α : Type} (read : Tree → Option α) (fs : List (String × Json)) :
    strict.tableOf read (Json.obj fs).toTree =
      (fs.mapM fun f => (read f.2.toTree).map (f.1, ·)).map Assoc.ofList := by
  have htable : (Json.toEntries fs).mapM entry? = some (fs.map fun f => (f.1, f.2.toTree)) := by
    induction fs with
    | nil => rfl
    | cons f fs ih =>
      obtain ⟨k, v⟩ := f
      rw [Json.toEntries, List.mapM_cons, ih]
      rfl
  have hpairs : (fs.map fun f => (f.1, f.2.toTree)).mapM (pairOf read) =
      fs.mapM fun f => (read f.2.toTree).map (f.1, ·) := by
    rw [List.mapM_map]
    refine Option.mapM_congr (List.forall₂_same.mpr fun f _ => ?_)
    exact Option.map_eq_bind.symm
  show ((Json.toEntries fs).mapM entry?).bind _ = _
  rw [htable, Option.bind_some, Option.map_eq_bind, ← hpairs]
  rfl

end Tree

namespace RecordKind

open ApiClient.Tree

variable {k : RecordKind}

theorem Agrees.refl (k : RecordKind) (name : String) (t : Tree) : k.Agrees name t t := .inl rfl

theorem ne_ref_of_part {name : String} {e : Expected} (h : k.parts.lookup name = some e) :
    name ≠ "$ref" := by
  rintro rfl
  cases k <;> cases h

theorem sameRecord_of_fieldwise {es es' : List (Tree × Tree)}
    (h : Option.Rel (Fieldwise k.Agrees) (knownFields k.names es) (knownFields k.names es')) :
    k.SameRecord (.map es) (.map es') := by
  show Option.Rel (Record.Agrees k) ((knownFields k.names es).map _) ((knownFields k.names es').map _)
  generalize knownFields k.names es = x, knownFields k.names es' = x' at h
  cases h with
  | none => exact .none
  | some hfields => exact .some ⟨rfl, Fieldwise.lookup hfields⟩

theorem sameRecord_insert {key : String} (h : key ∉ k.names) (before after : List (String × Json))
    (x : Json) : k.SameRecord (Json.obj (before ++ after)).toTree
      (Json.obj (before ++ (key, x) :: after)).toTree := by
  refine sameRecord_of_fieldwise ?_
  rw [knownFields_insert h]
  cases knownFields k.names (Json.toEntries (before ++ after)) with
  | none => exact .none
  | some fields => exact .some (List.forall₂_same.mpr fun f _ => ⟨rfl, Agrees.refl k f.1 f.2⟩)

theorem sameRecord_place {name : String} {before after : List Tree} {t t' : Tree}
    (hname : k.names[before.length]? = some name) (h : k.Agrees name t t') :
    k.SameRecord (.seq (before ++ t :: after)) (.seq (before ++ t' :: after)) := by
  rw [SameRecord, record?, record?, List.length_append, List.length_append, List.length_cons,
    List.length_cons]
  split_ifs
  · exact .some ⟨rfl, Fieldwise.lookup (zip_change (Agrees.refl k) h before after hname)⟩
  · exact .none

end RecordKind

theorem Padded.compound {e : Expected} {v v' : Json} (h : Padded e v v') :
    v.toTree.Compound ∧ v'.toTree.Compound := by
  cases h <;> exact ⟨trivial, trivial⟩

open RecordKind ApiClient.Tree in
/-- No reader of a value sees a key that names no field. -/
theorem Padded.read_eq {e : Expected} {v v' : Json} (h : Padded e v v') :
    e.read v.toTree = e.read v'.toTree := by
  induction h with
  | @key k before after key x hkey href =>
    exact k.read_congr (sameRecord_insert hkey before after x) fun hk =>
      (referred?_insert (href hk) before after x).symm
  | @beside k before after key r x hk hkey hone =>
    exact k.read_of_referred? hk (referred?_of_filter hone)
      ((referred?_insert hkey before after x).trans (referred?_of_filter hone))
  | @field k before after name e v v' hpart hv ih =>
    have hagrees : k.Agrees name v.toTree v'.toTree := .inr ⟨e, hpart, hv.compound, ih⟩
    refine k.read_congr
      (sameRecord_of_fieldwise (knownFields_change (Agrees.refl k) hagrees before after)) fun _ => ?_
    rw [referred?_insert (ne_ref_of_part hpart), referred?_insert (ne_ref_of_part hpart)]
  | @place k before after name e v v' hname hpart hv ih =>
    have hagrees : k.Agrees name v.toTree v'.toTree := .inr ⟨e, hpart, hv.compound, ih⟩
    rw [← Json.length_toTrees] at hname
    rw [Json.toTree, Json.toTree, Json.toTrees_append, Json.toTrees_append]
    exact k.read_congr (sameRecord_place hname hagrees) fun _ => rfl
  | @item e before after v v' hv ih =>
    rw [Json.toTree, Json.toTree, Json.toTrees_append, Json.toTrees_append]
    refine Option.mapM_congr (List.rel_append ?_ (.cons ih ?_)) <;> exact List.forall₂_same.mpr fun _ _ => rfl
  | @entry e before after key v v' hv ih =>
    show strict.tableOf e.read _ = strict.tableOf e.read _
    rw [tableOf_obj, tableOf_obj]
    refine congrArg _ (Option.mapM_congr (List.rel_append ?_ (.cons ?_ ?_)))
    · exact List.forall₂_same.mpr fun _ _ => rfl
    · rw [ih]
    · exact List.forall₂_same.mpr fun _ _ => rfl

/-- Keys that name no field of their record may be added anywhere in a description, with any values: it is
read as the same, or fails as before. -/
theorem Document.ofJson?_padded {v v' : Json}
    (h : Relation.ReflTransGen (Padded (.record .document)) v v') :
    Document.ofJson? v' = Document.ofJson? v := by
  induction h with
  | refl => rfl
  | tail _ hpadded ih => exact (hpadded.read_eq.symm : Document.ofJson? _ = _).trans ih

/-- A description with one schema, that of a parameter. -/
def notesText (schema : Json) : Json :=
  .obj [("paths", .obj [("/notes", .obj [("get", .obj [("parameters", .arr [
    .obj [("name", .str "ids"), ("in", .str "query"), ("schema", schema)]])])])])]

theorem notesText_padded {v v' : Json} (h : Padded (.record .schema) v v') :
    Padded (.record .document) (notesText v) (notesText v') := by
  have hparameter := @Padded.field .parameter [("name", .str "ids"), ("in", .str "query")] [] "schema"
    (.record .schema) v v' rfl h
  have hoperation := @Padded.field .operation [] [] "parameters" (.list (.record .parameter)) _ _ rfl
    (@Padded.item (.record .parameter) [] [] _ _ hparameter)
  have hitem := @Padded.field .pathItem [] [] "get" (.record .operation) _ _ rfl hoperation
  exact @Padded.field .document [] [] "paths" (.table (.record .pathItem)) _ _ rfl
    (@Padded.entry (.record .pathItem) [] [] "/notes" _ _ hitem)

/-- A schema gets a description, and the reference inside of it a word that schemas know. -/
theorem Document.ofJson?_padded_notes :
    let reference : String × Json := ("$ref", .str "#/components/schemas/Id")
    let v := notesText (.obj [("type", .str "array"), ("items", .obj [reference])])
    let v' := notesText (.obj [("type", .str "array"), ("description", .str "all of them"),
      ("items", .obj [reference, ("nullable", .bool true)])])
    Relation.ReflTransGen (Padded (.record .document)) v v' ∧
      Document.ofJson? v' = Document.ofJson? v ∧
      (Document.ofJson? v).map (fun d => d.paths.map (·.1)) = some ["/notes"] := by
  intro reference v v'
  have hfirst := @Padded.key .schema [("type", .str "array")] [("items", .obj [reference])] "description"
    (.str "all of them") (by decide) fun _ => by decide
  have hsecond := @Padded.field .schema [("type", .str "array"), ("description", .str "all of them")] []
    "items" (.record .schema) _ _ rfl
    (@Padded.beside .schema [reference] [] "nullable" "#/components/schemas/Id" (.bool true) rfl (by decide) rfl)
  have hsteps : Relation.ReflTransGen (Padded (.record .document)) v v' :=
    (Relation.ReflTransGen.single (notesText_padded hfirst)).tail (notesText_padded hsecond)
  exact ⟨hsteps, Document.ofJson?_padded hsteps, by decide +kernel⟩

end ApiClient

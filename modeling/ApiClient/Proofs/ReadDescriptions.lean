import ApiClient.Document.Loading
import ApiClient.Proofs.Fidelity
import ApiClient.Proofs.Formats

/-! Descriptions that are read. A table that is read has each key once, and the numbers of what is read are
in normal form, so that a description that is read says each thing once. -/

namespace ApiClient

open Format
open ApiClient.Tree (strict strict_keeps)

/-! ### References -/

theorem RefOr.reads {α : Type} {P : α → Prop} {read : Tree → Option α} (h : Reads Tree.Normal P read) :
    Reads Tree.Normal (RefOr.All P) (RefOr.ofTree? read) := by
  intro t ht
  rw [RefOr.ofTree?_eq]
  cases t.referred? with
  | some r => exact .pure nofun
  | none =>
    refine (h t ht).map fun a ha b hb => ?_
    obtain rfl := RefOr.inline.inj hb
    exact ha

/-! ### Schemas -/

namespace Schema

theorem obeysOf_iff {K : Rules} {s : RefOr Schema} : ObeysOf K s ↔ s.All (Schema.Obeys K) := by
  cases s with
  | ref r => exact iff_of_true trivial nofun
  | inline s => simp [ObeysOf, RefOr.All]

theorem obeyAll_iff {K : Rules} {ss : List (RefOr Schema)} : ObeyAll K ss ↔ ∀ s ∈ ss, ObeysOf K s := by
  induction ss with
  | nil => simp [ObeyAll]
  | cons s ss ih => simp [ObeyAll, ih]

theorem obeyFields_iff {K : Rules} {fs : List (String × RefOr Schema)} :
    ObeyFields K fs ↔ ∀ f ∈ fs, ObeysOf K f.2 := by
  induction fs with
  | nil => simp [ObeyFields]
  | cons f fs ih => simp [ObeyFields, ih]

theorem obeysItems_iff {K : Rules} {s : Option (RefOr Schema)} :
    ObeysItems K s ↔ ∀ t ∈ s, ObeysOf K t := by
  cases s <;> simp [ObeysItems]

theorem obeysAdditional_iff {K : Rules} {a : Option (Additional (RefOr Schema))} :
    ObeysAdditional K a ↔ ∀ s, a = some (.values s) → ObeysOf K s := by
  rcases a with _ | _ | s <;> simp [ObeysAdditional]

variable {inner : Tree → Option (RefOr Schema)}

theorem reads_additional (h : Reads Tree.Normal (ObeysOf .once) inner) :
    Reads Tree.Normal (fun a => ∀ s, a = .values s → ObeysOf .once s) (Additional.ofTree? inner) := by
  intro t ht
  cases t with
  | bool b => exact .pure nofun
  | _ =>
    refine (h _ ht).map fun s hs u hu => ?_
    obtain rfl := Additional.values.inj hu
    exact hs

theorem reads_values : Reads Tree.Normal (fun v : Json => v.Distinct ∧ v.Normal) Json.ofTree? :=
  fun t ht _ hv => ⟨Json.ofTree?_distinct t hv, Json.ofTree?_normal t ht hv⟩

/-- A schema says each thing once if those inside do. -/
theorem reads_once (h : Reads Tree.Normal (ObeysOf .once) inner) :
    Reads Tree.Normal (Schema.Obeys .once) (ofTree? inner) := by
  refine strict_keeps.ofRecord fun r hr => ?_
  -- The fields come in the order in which they are read; of names and flags nothing is asked.
  refine strict_keeps.optionally (.any _) hr |>.bind fun type _ => ?_
  refine strict_keeps.optionally (.any _) hr |>.bind fun format _ => ?_
  refine strict_keeps.optionally (strict_keeps.listOf reads_values) hr |>.bind fun enum henum => ?_
  refine strict_keeps.tableField h hr |>.bind fun properties hproperties => ?_
  refine .bind (.any _) fun required _ => ?_
  refine strict_keeps.optionally h hr |>.bind fun items hitems => ?_
  refine strict_keeps.optionally (reads_additional h) hr |>.bind fun additional hadditional => ?_
  refine strict_keeps.listField h hr |>.bind fun allOf hallOf => ?_
  refine strict_keeps.listField h hr |>.bind fun oneOf honeOf => ?_
  refine strict_keeps.listField h hr |>.bind fun anyOf hanyOf => ?_
  refine .bind (.any _) fun nullable _ => .pure ?_
  rw [Schema.Obeys]
  refine ⟨henum, hproperties.1, obeyFields_iff.mpr hproperties.2, obeysItems_iff.mpr hitems, ?_,
    obeyAll_iff.mpr hallOf, obeyAll_iff.mpr honeOf, obeyAll_iff.mpr hanyOf⟩
  exact obeysAdditional_iff.mpr fun s hs => hadditional _ hs s rfl

theorem read?_reads : Reads Tree.Normal (ObeysOf .once) read? := by
  have hlevels (levels : Nat) : Reads Tree.Normal (ObeysOf .once) (ofLevels? levels) := by
    induction levels with
    | zero => exact fun _ _ => nofun
    | succ levels ih => exact fun t ht => (RefOr.reads (reads_once ih) t ht).mono fun s => obeysOf_iff.mpr
  exact fun t ht => hlevels t.depth t ht

end Schema

/-! ### Descriptions -/

theorem Parameter.read?_reads : Reads Tree.Normal (RefOr.All (Parameter.Obeys .once)) Parameter.read? := by
  refine RefOr.reads (strict_keeps.ofRecord fun r hr => ?_)
  refine .bind (.any _) fun name _ => .bind (.any _) fun location _ => .bind (.any _) fun required _ => ?_
  refine strict_keeps.optionally Schema.read?_reads hr |>.bind fun schema hschema => ?_
  exact .bind (.any _) fun type _ => .pure ⟨trivial, Schema.obeysItems_iff.mpr hschema⟩

theorem Body.read?_reads : Reads Tree.Normal (RefOr.All (Body.Obeys .once)) Body.read? := by
  have hmedia : Reads Tree.Normal (Schema.ObeysItems .once) mediaType? :=
    strict_keeps.ofRecord fun r hr =>
      (strict_keeps.optionally Schema.read?_reads hr).mono fun s => Schema.obeysItems_iff.mpr
  refine RefOr.reads (strict_keeps.ofRecord fun r hr => ?_)
  exact strict_keeps.tableField hmedia hr |>.bind fun content hcontent => .pure hcontent.2

section

variable {m : Type → Type} [Monad m] [LawfulMonad m] [MonadExcept Unit m] [Outcomes m] {ν : Type}
  {f : Format m ν} {N : ν → Prop}

theorem Components.read_reads (hf : f.Keeps N) : Reads N (Components.Obeys .once) (Components.read f) := by
  refine hf.ofRecord fun r hr => ?_
  refine hf.tableField (hf.within Schema.read?_reads) hr |>.bind fun schemas hschemas => ?_
  refine hf.tableField (hf.within Parameter.read?_reads) hr |>.bind fun parameters hparameters => ?_
  refine hf.tableField (hf.within Body.read?_reads) hr |>.bind fun requestBodies hbodies => ?_
  refine hf.tableField (hf.within Body.read?_reads) hr |>.bind fun responses hresponses => ?_
  exact .pure ⟨fun _ _ => trivial, hschemas.2, hparameters.2, hbodies.2, hresponses.2⟩

/-- The parts of an operation obey the rules. -/
structure Operation.Obeys (K : Rules) (op : Operation) : Prop where
  parameters : ∀ p ∈ op.parameters, p.All (Parameter.Obeys K)
  requestBody : ∀ b ∈ op.requestBody, b.All (Body.Obeys K)
  responses : ∀ e ∈ op.responses, e.2.All (Body.Obeys K)

structure PathItem.Obeys (K : Rules) (item : PathItem) : Prop where
  operation : ∀ m op, item.operation? m = some op → op.Obeys K
  parameters : ∀ p ∈ item.parameters, p.All (Parameter.Obeys K)

theorem Operation.read_reads (hf : f.Keeps N) : Reads N (Operation.Obeys .once) (Operation.read f) := by
  refine hf.ofRecord fun r hr => ?_
  refine .bind (.any _) fun operationId _ => ?_
  refine hf.listField (hf.within Parameter.read?_reads) hr |>.bind fun parameters hparameters => ?_
  refine hf.optionally (hf.within Body.read?_reads) hr |>.bind fun requestBody hbody => ?_
  refine hf.tableField (hf.within Body.read?_reads) hr |>.bind fun responses hresponses => ?_
  exact .pure ⟨hparameters, hbody, hresponses.2⟩

theorem PathItem.read_reads (hf : f.Keeps N) : Reads N (PathItem.Obeys .once) (PathItem.read f) := by
  refine hf.ofRecord fun r hr => ?_
  have hmethod (m : Method) : Yields (fun e => ∀ op ∈ e.2, Operation.Obeys .once op) (method f r m) :=
    (hf.optionally (Operation.read_reads hf) hr).bind fun op hop => .pure hop
  refine Yields.mapM (fun m _ => hmethod m) |>.bind fun operations hoperations => ?_
  refine hf.listField (hf.within Parameter.read?_reads) hr |>.bind fun parameters hparameters => ?_
  refine .pure ⟨fun m op hop => ?_, hparameters⟩
  exact hoperations _ (Assoc.mem_of_lookup (Option.join_eq_some_iff.mp hop)) op rfl

theorem Document.read_reads (hf : f.Keeps N) : Reads N (Document.Obeys .once) (Document.read f) := by
  refine hf.ofRecord fun r hr => ?_
  refine .bind (.any _) fun servers _ => ?_
  refine hf.tableField (PathItem.read_reads hf) hr |>.bind fun paths hpaths => ?_
  refine (Components.read_reads hf).defaulted hr ?_ |>.bind fun components hcomponents => ?_
  · constructor <;> simp
  refine .pure ⟨hcomponents, fun site hsite => ?_⟩
  obtain ⟨hitem, hmethod⟩ := Document.mem_sites hsite
  have hpath := hpaths.2 _ hitem
  obtain ⟨m, -, hm⟩ := List.mem_filterMap.mp hmethod
  obtain ⟨op, hop, heq⟩ := Option.map_eq_some_iff.mp hm
  obtain ⟨-, rfl⟩ := Prod.mk.inj heq
  have hoperation := hpath.operation m _ hop
  exact ⟨trivial, List.forall_mem_append.mpr ⟨hpath.parameters, hoperation.parameters⟩,
    hoperation.requestBody, hoperation.responses⟩

end

/-! ### Texts -/

mutual

theorem Json.toTree_normal : (v : Json) → v.Normal → v.toTree.Normal
  | .null, _ | .bool _, _ | .str _, _ => trivial
  | .int n, _ => by
    rw [toTree, Tree.ofInt]
    split_ifs <;> exact trivial
  | .float _, h => h
  | .arr items, h => Json.toTrees_normal items h
  | .obj fs, h => Json.toEntries_normal fs h

theorem Json.toTrees_normal : (vs : List Json) → Json.AllNormal vs → Tree.AllNormal (toTrees vs)
  | [], _ => trivial
  | v :: vs, h => ⟨v.toTree_normal h.1, Json.toTrees_normal vs h.2⟩

theorem Json.toEntries_normal : (fs : List (String × Json)) → Json.FieldsNormal fs →
    Tree.EntriesNormal (toEntries fs)
  | [], _ => trivial
  | (_, v) :: fs, h => ⟨v.toTree_normal h.1, Json.toEntries_normal fs h.2⟩

end

theorem Document.ofJson?_yields {v : Json} (h : v.Normal) :
    Yields (Document.Obeys .once) (Document.ofJson? v) :=
  Document.read_reads strict_keeps v.toTree (v.toTree_normal h)

/-- A description that is read of a text, be it JSON or YAML, says each thing once, also where the text says
one twice. -/
theorem Document.obeys_of_load {text : String} {d : Document} (h : Document.load text = .ok d) :
    d.Obeys .once := by
  rw [load] at h
  split at h
  · rename_i v hjson
    split at h
    · rename_i d' hd
      obtain rfl := Except.ok.inj h
      exact ofJson?_yields (Json.read?_normal (read?_of_jsonOf? hjson)) d' hd
    · cases h
  · split at h
    · rename_i d' hd
      obtain rfl := Except.ok.inj h
      exact Yaml.read?_yields (fun anchors => read_reads (Yaml.Typed.format_keeps anchors)) d' hd
    · cases h

end ApiClient

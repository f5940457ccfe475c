import ApiClient.Proofs.Declarations
import ApiClient.Proofs.Endpoints

/-! A resolved description is closed: each name that is mentioned anywhere holds a shape, so that the
module that is printed from it declares what it uses. -/

namespace ApiClient

open TypeExpr (Mentions)

theorem TypeExpr.mentions_union {n : String} {ts : List TypeExpr} (h : Mentions n (.union ts)) :
    ∃ t ∈ ts, Mentions n t := by
  cases h with
  | union hmem ht => exact ⟨_, hmem, ht⟩

theorem TypeExpr.mentions_intersection {n : String} {ts : List TypeExpr}
    (h : Mentions n (.intersection ts)) : ∃ t ∈ ts, Mentions n t := by
  cases h with
  | intersection hmem ht => exact ⟨_, hmem, ht⟩

theorem Schema.mentions_collapse {n : String} {combine : List TypeExpr → TypeExpr}
    (hcombine : ∀ ts, Mentions n (combine ts) → ∃ t ∈ ts, Mentions n t) {ts : List TypeExpr}
    (h : Mentions n (collapse combine ts)) : ∃ t ∈ ts, Mentions n t := by
  rcases ts with _ | ⟨t, _ | ⟨u, ts⟩⟩
  · cases h
  · exact ⟨t, List.mem_singleton_self t, h⟩
  · exact hcombine _ h

theorem TypeExpr.not_mentions_null {n : String} : ¬ Mentions n null := by
  rintro ⟨⟩

theorem Schema.mentions_orNull {n : String} {t : TypeExpr} (h : Mentions n (orNull t)) :
    Mentions n t := by
  have hother : ∀ u, Mentions n (if u.isNull then u else .union [u, .null]) → Mentions n u := by
    intro u hu
    split_ifs at hu
    · exact hu
    · obtain ⟨v, hmem, hv⟩ := TypeExpr.mentions_union hu
      rcases List.mem_cons.mp hmem with rfl | hmem
      · exact hv
      · rw [List.mem_singleton.mp hmem] at hv
        exact absurd hv TypeExpr.not_mentions_null
  cases t with
  | union members =>
    rw [orNull] at h
    split_ifs at h
    · exact h
    · obtain ⟨v, hmem, hv⟩ := TypeExpr.mentions_union h
      rcases List.mem_append.mp hmem with hmem | hmem
      · exact .union hmem hv
      · rw [List.mem_singleton.mp hmem] at hv
        exact absurd hv TypeExpr.not_mentions_null
  | _ => exact hother _ h

namespace Outline

variable {ρ : String → Option String} {g : Registry} {n : String}

/-- The names in a type: what a reference is called, or where the values of an enum are. -/
def Source (ρ : String → Option String) (g : Registry) (n : String) : Prop :=
  (∃ r, ρ r = some n) ∨ ∃ vs, g.HoldsEnum n vs

mutual

theorem Means.mentions {o : Outline} {t : TypeExpr} : o.Means ρ g t → t.Mentions n → Source ρ g n
  | .ref hn, .named => .inl ⟨_, hn⟩
  | .enum hn, .named => .inr ⟨_, hn⟩
  | .array hm, .array h => hm.mentions h
  | .map hm, .map h => hm.mentions h
  | .object hm, .object hmem h => hm.mentions hmem h
  | .all hm, h =>
    let ⟨_, hmem, ht⟩ := Schema.mentions_collapse (fun _ => TypeExpr.mentions_intersection) h
    hm.mentions hmem ht
  | .any hm, h =>
    let ⟨_, hmem, ht⟩ := Schema.mentions_collapse (fun _ => TypeExpr.mentions_union) h
    hm.mentions hmem ht
  | .orNull hm, h => hm.mentions (Schema.mentions_orNull h)

theorem AllMean.mentions {os : List Outline} {ts : List TypeExpr} {t : TypeExpr} :
    AllMean ρ g os ts → t ∈ ts → t.Mentions n → Source ρ g n
  | .cons hm hms, hmem, ht => by
    rcases List.mem_cons.mp hmem with rfl | hmem
    · exact hm.mentions ht
    · exact hms.mentions hmem ht

theorem FieldsMean.mentions {fs : List (FieldKey × Outline)} {gs : Fields} {k : FieldKey}
    {t : TypeExpr} : FieldsMean ρ g fs gs → (k, t) ∈ gs → t.Mentions n → Source ρ g n
  | .cons hm hms, hmem, ht => by
    rcases List.mem_cons.mp hmem with heq | hmem
    · obtain ⟨rfl, rfl⟩ := Prod.mk.inj heq
      exact hm.mentions ht
    · exact hms.mentions hmem ht

end

end Outline

/-- The name is mentioned in the arguments or the answer of an operation, or in a shape. -/
inductive Resolution.Mentions (R : Resolution) (n : String) : Prop
  | operation {op : Endpoint} {t : TypeExpr} :
    op ∈ R.operations → t ∈ op.types → t.Mentions n → Mentions R n
  | definition {m : String} {d : Definition} :
    (m, d) ∈ R.definitions.entries → d.Mentions n → Mentions R n

namespace Naming

variable {schemas : List (String × RefOr Schema)} {ρ : String → Option String} {g : Registry}
  {n : String}

theorem filled (hρ : Naming schemas ρ g) (h : Outline.Source ρ g n) : ∃ d, g.get? n = some d := by
  rcases h with ⟨r, hr⟩ | ⟨vs, ws, hws, -⟩
  · obtain ⟨-, -, d, -, -, hd, -⟩ := hρ.component r n hr
    exact ⟨d, hd⟩
  · exact ⟨.enum ws, hws⟩

theorem definition_source (hρ : Naming schemas ρ g) {m : String} {d : Definition}
    (hd : g.get? m = some d) (h : d.Mentions n) : Outline.Source ρ g n := by
  rcases hρ.entries m d hd with ⟨vs, rfl⟩ | ⟨r, hr⟩
  · cases h
  · obtain ⟨c, target, d', -, -, hd', hshape⟩ := hρ.component r m hr
    obtain rfl : d = d' := Option.some.inj (hd.symm.trans hd')
    generalize target.shape = shape at hshape
    rcases h with ⟨hfield, ht⟩ | ht
    · cases hshape with
      | object hfields => exact hfields.mentions hfield ht
    · cases hshape with
      | type ho => exact ho.mentions ht

end Naming

open TypeScript

/-- The types of an operation that are printed; without arguments there is nothing to say of them. -/
def Endpoint.printedTypes (op : Endpoint) : List TypeExpr :=
  (if argumentNames op = [] then [] else op.requestType.map (·.2)) ++ [op.responseType]

theorem TypeScript.printed_within {c : Config} {g : Registry} {op : Endpoint} {t : TypeExpr}
    (h : t ∈ op.printedTypes) : Text.Within (typeText g t) (operationText c g op) := by
  rcases List.mem_append.mp h with h | h
  · split_ifs at h with hnames
    · cases h
    · obtain ⟨f, hf, rfl⟩ := List.mem_map.mp h
      exact (request_within hf hnames).trans (arguments_within op)
  · rw [List.mem_singleton.mp h]
    exact response_within op

/-- No promise is left open and no name is mentioned that holds no shape. In the module that is
printed each of them is declared once, as a constant or as a type according to how it is written, and
every mention of it is written that way. -/
structure Resolution.Closed (c : Config) (R : Resolution) : Prop where
  kept : R.definitions.reserved = []
  once : R.definitions.names.Nodup
  holds : ∀ n, R.Mentions n → ∃ d, R.definitions.get? n = some d
  index : ∀ n, R.Mentions n →
    ((typeText R.definitions (.named n) = "keyof typeof " ++ n ∨
      typeText R.definitions (.named n) = "(typeof " ++ n ++ ")[keyof typeof " ++ n ++ "]") ↔
        Declares R.definitions "const" n)
  plain : ∀ n, R.Mentions n →
    (typeText R.definitions (.named n) = n ↔
      Declares R.definitions "interface" n ∨ Declares R.definitions "type" n)
  operation : ∀ op ∈ R.operations,
    Text.Within (operationText c R.definitions op) (moduleText c R) ∧
      ∀ n, ∀ t ∈ op.printedTypes, t.Mentions n →
        Text.Within (typeText R.definitions (.named n)) (operationText c R.definitions op)
  definition : ∀ m d, (m, d) ∈ R.definitions.entries →
    Text.Within (definitionText R.definitions m d) (moduleText c R) ∧
      ∀ n, d.Mentions n →
        Text.Within (typeText R.definitions (.named n)) (definitionText R.definitions m d)

theorem Document.resolve_holds {d : Document} {R : Resolution} (h : d.resolve = .ok R) {n : String}
    (hn : R.Mentions n) : ∃ D, R.definitions.get? n = some D := by
  obtain ⟨q, hq, hsound, hdone, htyped⟩ := d.resolve_sound h
  rw [← hq] at hdone ⊢
  refine (hsound.naming hdone).filled ?_
  rcases hn with ⟨hop, ht, hn⟩ | ⟨hmem, hn⟩
  · obtain ⟨o, ho⟩ := htyped _ hop _ ht
    exact ho.mentions hn
  · exact (hsound.naming hdone).definition_source (hsound.ordered.get?_of_mem (hq ▸ hmem)) hn

/-- A description that is resolved is closed, however its components refer to each other. -/
theorem Document.resolve_closed {d : Document} {R : Resolution} (h : d.resolve = .ok R)
    (c : Config) : R.Closed c := by
  obtain ⟨q, hq, hsound, hdone, -⟩ := d.resolve_sound h
  have hordered : R.definitions.Ordered := hq ▸ hsound.ordered
  refine ⟨hdone, hordered.names_nodup, fun n hn => resolve_holds h hn, fun n hn => ?_, fun n hn => ?_,
    fun op hop => ⟨operation_within hop, fun n t ht hn => ?_⟩,
    fun m D hmem => ⟨declaration_within hmem, fun n hn => mention_within_definition hn m⟩⟩
  · obtain ⟨D, hD⟩ := resolve_holds h hn
    exact (use_agrees hordered hD).1
  · obtain ⟨D, hD⟩ := resolve_holds h hn
    exact (use_agrees hordered hD).2
  · exact (mention_within hn).trans (printed_within ht)

/-- Trees with two kinds of nodes, under one operation. -/
def treeDocument : Document where
  paths := [("/tree", {
    operation? := fun m => if m = .get then some {
      operationId := some "tree"
      responses := [("200", .inline ⟨[("application/json", some (.ref "#/components/schemas/tree"))]⟩)] }
      else none })]
  components.schemas := [("tree", .inline {
    properties := [
      ("kind", .inline { enum := some [.str "leaf", .str "node"] }),
      ("children", .inline {
        type := some (.single "array"), items := some (.ref "#/components/schemas/tree") })] })]

theorem resolve_closed_tree :
    ∃ R, treeDocument.resolve = .ok R ∧ R.definitions.names = ["Tree", "TreeKind"] ∧ R.Closed {} := by
  have hnames : treeDocument.resolve.toOption.map (·.definitions.names) =
      some ["Tree", "TreeKind"] := by decide +kernel
  obtain ⟨R, h, hnames⟩ := Document.resolve_of_map hnames
  exact ⟨R, h, hnames, Document.resolve_closed h {}⟩

end ApiClient

import ApiClient.Proofs.Declarations
import ApiClient.Proofs.Growth
import ApiClient.Proofs.Titles

/-! What a module exports: a function for each operation and a type for each shape. The names of the types
are different from each other, and those of the functions as far as the names of the operations are
different in camel case. A function and a type have one name only if it does not begin with a small letter. -/

namespace ApiClient

namespace Endpoint

/-- The name of the function that requests the operation. -/
def function (op : Endpoint) : String := functionName op.method.text op.operationId

def lowerId (op : Endpoint) : List Char := Text.lowerCamel op.operationId.toList

def upperId (op : Endpoint) : List Char := Text.upperCamel op.operationId.toList

/-- The names of the operations come to the name of one function. -/
def Clashes (a b : Endpoint) : Prop :=
  if a.method = .get then
    if b.method = .get then a.lowerId = b.lowerId else a.lowerId = "create".toList ++ b.upperId
  else
    if b.method = .get then "create".toList ++ a.upperId = b.lowerId else a.upperId = b.upperId

theorem isGet_text (m : Method) : isGet m.text = decide (m = .get) := by cases m <;> decide

theorem function_get {op : Endpoint} (h : op.method = .get) :
    op.function = String.ofList op.lowerId ++ "Request" := by
  simp [function, functionName, isGet_text, h, lowerId]

theorem function_other {op : Endpoint} (h : op.method ≠ .get) :
    op.function = String.ofList ("create".toList ++ op.upperId) ++ "Request" := by
  rw [function, functionName, isGet_text, decide_eq_false h, if_neg Bool.false_ne_true,
    String.ofList_append, String.ofList_toList]
  rfl

theorem function_eq_iff {a b : Endpoint} : a.function = b.function ↔ a.Clashes b := by
  rw [Clashes]
  split_ifs with ha hb hb
  · rw [function_get ha, function_get hb, String.append_left_inj, String.ofList_inj]
  · rw [function_get ha, function_other hb, String.append_left_inj, String.ofList_inj]
  · rw [function_other ha, function_get hb, String.append_left_inj, String.ofList_inj]
  · rw [function_other ha, function_other hb, String.append_left_inj, String.ofList_inj,
      List.append_cancel_left_eq]

theorem beginsSmall_function {op : Endpoint} (h : op.method ≠ .get) :
    Text.BeginsSmall op.function := by
  rw [function_other h]
  exact ⟨'c', by simp, by decide⟩

end Endpoint

/-- The names that the module of a resolution exports. -/
def Resolution.exports (r : Resolution) : List String :=
  r.operations.map Endpoint.function ++ r.definitions.names

namespace TypeScript

/-- The statement exports the name, as a constant or as a type. -/
def Exports (name statement : String) : Prop :=
  ∃ word ∈ ["const", "interface", "type"], ∃ rest,
    statement = "export " ++ word ++ " " ++ name ++ " " ++ rest

def statements (c : Config) (r : Resolution) : List String :=
  r.operations.map (operationText c r.definitions) ++
    r.definitions.entries.map fun (n, d) => definitionText r.definitions n d

def headers (c : Config) : List String :=
  if c.fileHeaders.isEmpty then [] else ["\n".intercalate c.fileHeaders]

theorem moduleText_eq (c : Config) (r : Resolution) :
    moduleText c r = "\n\n".intercalate (headers c ++ statements c r) ++ "\n" := by
  rw [moduleText, statements, ← List.append_assoc]
  rfl

theorem Exports.append {name statement : String} (h : Exports name statement) (text : String) :
    Exports name (statement ++ text) := by
  obtain ⟨word, hword, rest, rfl⟩ := h
  exact ⟨word, hword, rest ++ text, by rw [String.append_assoc]⟩

theorem exports_const (name text : String) : Exports name ("export const " ++ name ++ (" " ++ text)) := by
  refine ⟨"const", by simp, text, ?_⟩
  rw [← String.append_assoc]
  rfl

theorem operationText_exports (c : Config) (g : Registry) (op : Endpoint) :
    Exports op.function (operationText c g op) := by
  rw [operationText]
  split_ifs <;> iterate 6 refine Exports.append ?_ _
  · exact exports_const op.function "= "
  · exact exports_const op.function "= ("

theorem statements_export (c : Config) (r : Resolution) :
    List.Forall₂ Exports r.exports (statements c r) := by
  refine List.rel_append ?_ ?_
  · rw [List.forall₂_map_left_iff, List.forall₂_map_right_iff, List.forall₂_same]
    exact fun op _ => operationText_exports c r.definitions op
  · rw [Registry.names, List.forall₂_map_left_iff, List.forall₂_map_right_iff, List.forall₂_same]
    rintro ⟨name, d⟩ -
    exact ⟨word d, word_mem d, definitionText_word r.definitions name d⟩

end TypeScript

/-- The names of shapes are different from each other, and none of them begins with a small letter. -/
theorem Document.resolve_titled {d : Document} {R : Resolution} (h : d.resolve = .ok R) :
    R.definitions.names.Nodup ∧ ∀ name ∈ R.definitions.names, Title name := by
  obtain ⟨q, hq, hsound, -, -⟩ := resolve_sound h
  obtain ⟨eps, q', hrun, hR, -⟩ := resolve_eq_sorted h
  have htitled : (d.endpoints .empty).2.Titled :=
    endpoints_preserves Registry.titled_stable d fun name hname => absurd hname List.not_mem_nil
  rw [endpoints_apply, hrun] at htitled
  refine ⟨?_, fun name hname => ?_⟩
  · rw [← hq]
    exact hsound.ordered.names_nodup
  · rw [← hR] at hname
    exact htitled name (List.mem_append_left _ hname)

/-- A module has nothing but headers and statements, each of which exports one name. No name is exported
twice exactly if no two operations come to the name of one function, and no function of a `get` whose
name does not begin with a small letter has the name of a shape. -/
theorem Document.resolve_exports {d : Document} {R : Resolution} (h : d.resolve = .ok R)
    (c : Config) :
    TypeScript.moduleText c R =
        "\n\n".intercalate (TypeScript.headers c ++ TypeScript.statements c R) ++ "\n" ∧
      List.Forall₂ TypeScript.Exports R.exports (TypeScript.statements c R) ∧
      (R.exports.Nodup ↔
        R.operations.Pairwise (fun a b => ¬ a.Clashes b) ∧
          ∀ op ∈ R.operations, op.method = .get → ¬ Text.BeginsSmall op.function →
            op.function ∉ R.definitions.names) := by
  obtain ⟨hnodup, htitles⟩ := resolve_titled h
  refine ⟨TypeScript.moduleText_eq c R, TypeScript.statements_export c R, ?_⟩
  have hfunctions : (R.operations.map Endpoint.function).Nodup ↔
      R.operations.Pairwise fun a b => ¬ a.Clashes b := by
    rw [List.Nodup, List.pairwise_map]
    simp only [Ne, Endpoint.function_eq_iff]
  rw [Resolution.exports, List.nodup_append, hfunctions, and_iff_right hnodup]
  refine and_congr_right fun _ => ⟨fun hapart op hop _ _ hmem => ?_, fun hapart name hname => ?_⟩
  · exact hapart op.function (List.mem_map_of_mem hop) op.function hmem rfl
  · obtain ⟨op, hop, rfl⟩ := List.mem_map.mp hname
    rintro _ hmem rfl
    have hlarge := (htitles op.function hmem).not_beginsSmall
    by_cases hget : op.method = .get
    · exact hapart op hop hget hlarge hmem
    · exact hlarge (Endpoint.beginsSmall_function hget)

theorem resolve_exports_state :
    ∃ R, Document.resolve { paths := [stateOperation "lamps" [.str "on", .str "off"]] } = .ok R ∧
      R.exports = ["lampsRequest", "State"] ∧ ∀ c : Config,
        TypeScript.moduleText c R =
            "\n\n".intercalate (TypeScript.headers c ++ TypeScript.statements c R) ++ "\n" ∧
          List.Forall₂ TypeScript.Exports R.exports (TypeScript.statements c R) ∧
          (R.exports.Nodup ↔
            R.operations.Pairwise (fun a b => ¬ a.Clashes b) ∧
              ∀ op ∈ R.operations, op.method = .get → ¬ Text.BeginsSmall op.function →
                op.function ∉ R.definitions.names) := by
  have hrun : (Document.resolve
      { paths := [stateOperation "lamps" [.str "on", .str "off"]] }).toOption.map
      Resolution.exports = some ["lampsRequest", "State"] := by decide +kernel
  obtain ⟨R, h, hexports⟩ := Document.resolve_of_map hrun
  exact ⟨R, h, hexports, Document.resolve_exports h⟩

/-- Two operations with names that differ in their spelling only. -/
def spellingsDocument : Document where
  paths := [
    ("/notes", { operation? := fun m => if m = .get then some { operationId := some "listNotes" }
      else none }),
    ("/all-notes", { operation? := fun m => if m = .get then some { operationId := some "list_notes" }
      else none })]

theorem resolve_spellings :
    ∃ R, spellingsDocument.resolve = .ok R ∧
      R.operations.map (·.operationId) = ["listNotes", "list_notes"] ∧
      R.exports = ["listNotesRequest", "listNotesRequest"] ∧ ¬ R.exports.Nodup := by
  have hrun : spellingsDocument.resolve.toOption.map (fun R =>
      (R.operations.map (·.operationId), R.exports)) =
      some (["listNotes", "list_notes"], ["listNotesRequest", "listNotesRequest"]) := by
    cbv
  obtain ⟨R, h, hread⟩ := Document.resolve_of_map hrun
  obtain ⟨hids, hexports⟩ := Prod.mk.inj hread
  exact ⟨R, h, hids, hexports, by rw [hexports]; decide⟩

end ApiClient

import ApiClient.Proofs.Arguments

/-! What a request sends as its body. The first body parameter that has a name is sent, or the first form
parameter if there is none; the content type tells whether the endpoint has a form parameter at all. -/

namespace ApiClient

/-- The groups of parameters that a body can come from. -/
inductive BodySource where
  | body | form

def BodySource.contentType : BodySource → String
  | .body => "application/json"
  | .form => "multipart/form-data"

/-- A name that is not blank, with blank names only before it. -/
def FirstNamed (names : List String) (name : String) : Prop :=
  name ≠ "" ∧ ∃ before after, names = before ++ name :: after ∧ ∀ b ∈ before, b = ""

namespace Endpoint

/-- The endpoint sends this parameter as its body. -/
inductive Sends (op : Endpoint) : BodySource → String → Prop
  | body {name : String} : FirstNamed op.bodyParams name → op.Sends .body name
  | form {name : String} :
    (∀ b ∈ op.bodyParams, b = "") → FirstNamed op.formParams name → op.Sends .form name

/-- A parameter of the form has a name. -/
def HasForm (op : Endpoint) : Prop := ∃ name ∈ op.formParams, name ≠ ""

end Endpoint

namespace TypeScript

/-- The lines that give a property to the object that describes a request. -/
def linesOf (property : String) (op : Endpoint) : List String :=
  (requestEntries op).filter fun e => (property ++ ": ").toList.isPrefixOf e.toList

variable {op : Endpoint}

theorem given_eq_nil_iff {names : List String} : given names = [] ↔ ∀ b ∈ names, b = "" := by
  simp [given, List.filter_eq_nil_iff]

theorem head?_given {names : List String} {name : String} :
    (given names).head? = some name ↔ FirstNamed names name := by
  rw [given, List.head?_filter, List.find?_eq_some_iff_append, FirstNamed]
  simp

theorem bodySource?_eq_some_iff {name : String} :
    bodySource? op = some name ↔ ∃ source, op.Sends source name := by
  rw [bodySource?, Option.or_eq_some_iff, List.head?_eq_none_iff, given_eq_nil_iff, head?_given,
    head?_given]
  constructor
  · rintro (hbody | ⟨hblank, hform⟩)
    · exact ⟨.body, .body hbody⟩
    · exact ⟨.form, .form hblank hform⟩
  · rintro ⟨source, hbody | ⟨hblank, hform⟩⟩
    · exact .inl hbody
    · exact .inr ⟨hblank, hform⟩

theorem given_append (names others : List String) :
    given (names ++ others) = given names ++ given others := List.filter_append ..

theorem bodySource?_eq_none_iff :
    bodySource? op = none ↔ ∀ b ∈ op.bodyParams ++ op.formParams, b = "" := by
  rw [bodySource?, ← List.head?_append, ← given_append, List.head?_eq_none_iff, given_eq_nil_iff]

theorem contentType_eq_iff (source : BodySource) :
    contentType op = source.contentType ↔ (source = .form ↔ op.HasForm) := by
  have hempty : (given op.formParams).isEmpty = true ↔ ¬ op.HasForm := by
    rw [List.isEmpty_iff, given_eq_nil_iff, Endpoint.HasForm]
    push Not
    rfl
  rw [contentType]
  by_cases hform : op.HasForm
  · rw [if_neg (by rwa [hempty, not_not])]
    cases source <;> simp [BodySource.contentType, hform]
  · rw [if_pos (hempty.mpr hform)]
    cases source <;> simp [BodySource.contentType, hform]

/-- One line for the parameter that is sent, one for its content type, and neither without it. -/
theorem linesOf_eq (op : Endpoint) :
    linesOf "data" op = (bodySource? op).toList.map (fun name => "data: " ++ argumentName name) ∧
      linesOf "headers" op = (bodySource? op).toList.map fun _ =>
        "headers: \x7b \"Content-Type\": \"" ++ contentType op ++ "\" \x7d" := by
  rw [linesOf, linesOf, requestEntries]
  cases bodySource? op <;> split_ifs <;> simp [List.isPrefixOf]

theorem exists_sends_iff :
    (∃ source name, op.Sends source name) ↔ ∃ name ∈ op.bodyParams ++ op.formParams, name ≠ "" := by
  rw [exists_comm]
  simp only [← bodySource?_eq_some_iff, ← Option.isSome_iff_exists]
  rw [← not_iff_not, Option.not_isSome_iff_eq_none, bodySource?_eq_none_iff]
  push Not
  rfl

/-- A request has lines for a body exactly if a parameter of the body or of the form has a name. The
content type is that of what is sent, unless a body parameter is sent beside a form. -/
theorem linesOf_sends (op : Endpoint) :
    ((∃ source name, op.Sends source name) ↔
        ∃ name ∈ op.bodyParams ++ op.formParams, name ≠ "") ∧
      ((¬ ∃ source name, op.Sends source name) →
        linesOf "data" op = [] ∧ linesOf "headers" op = []) ∧
      ∀ source name, op.Sends source name →
        linesOf "data" op = ["data: " ++ argumentName name] ∧
          linesOf "headers" op =
            ["headers: \x7b \"Content-Type\": \"" ++ contentType op ++ "\" \x7d"] ∧
          (contentType op = "multipart/form-data" ↔ op.HasForm) ∧
          (contentType op = "application/json" ↔ ¬ op.HasForm) ∧
          (contentType op = source.contentType ↔ (source = .form ↔ op.HasForm)) := by
  obtain ⟨hdata, hheaders⟩ := linesOf_eq op
  refine ⟨exists_sends_iff, fun hnone => ?_, fun source name hsends => ?_⟩
  · rw [exists_sends_iff] at hnone
    push Not at hnone
    rw [hdata, hheaders, bodySource?_eq_none_iff.mpr hnone]
    exact ⟨rfl, rfl⟩
  · rw [hdata, hheaders, bodySource?_eq_some_iff.mpr ⟨source, hsends⟩]
    refine ⟨rfl, rfl, ?_, ?_, contentType_eq_iff source⟩
    · exact (contentType_eq_iff .form).trans (by simp)
    · exact (contentType_eq_iff .body).trans (by simp)

/-- A form without a body, some of whose parameters have no name. -/
theorem linesOf_sends_upload :
    let op : Endpoint := ⟨"/notes", .post, "addNote", [], [], [""], ["", "note_file"], [], .unknown⟩
    op.Sends .form "note_file" ∧ op.HasForm ∧ linesOf "data" op = ["data: noteFile"] ∧
      contentType op = BodySource.form.contentType := by
  intro op
  have hfirst : FirstNamed op.formParams "note_file" :=
    ⟨by decide, [""], [], rfl, by simp⟩
  have hsends : op.Sends .form "note_file" := .form (by simp [op]) hfirst
  have hform : op.HasForm := ⟨"note_file", by simp [op], by decide⟩
  obtain ⟨hdata, -, -, -, htype⟩ := (linesOf_sends op).2.2 .form "note_file" hsends
  have hargument : "data: " ++ argumentName "note_file" = "data: noteFile" := by decide +kernel
  exact ⟨hsends, hform, hargument ▸ hdata, htype.mpr (iff_of_true rfl hform)⟩

end TypeScript

/-- A request with a body, and with a cookie beside it. -/
def sessionDocument : Document where
  paths := [("/notes", {
    operation? := fun m => if m = .post then some {
      operationId := some "addNote"
      parameters := [.inline { name := "session", location := "cookie" }]
      requestBody := some (.inline ⟨[("application/json", none)]⟩) }
      else none })]

/-- The body is sent as if it was the form that the cookie is counted to. -/
theorem resolve_session :
    ∃ R op, sessionDocument.resolve = .ok R ∧ op ∈ R.operations ∧ op.Sends .body "addNoteRequest" ∧
      TypeScript.linesOf "data" op = ["data: addNoteRequest"] ∧
      TypeScript.linesOf "headers" op =
        ["headers: \x7b \"Content-Type\": \"multipart/form-data\" \x7d"] := by
  have hrun : sessionDocument.resolve.toOption.map (fun R => R.operations.map fun op =>
      (op.bodyParams, TypeScript.linesOf "data" op, TypeScript.linesOf "headers" op)) =
      some [(["addNoteRequest"], ["data: addNoteRequest"],
        ["headers: \x7b \"Content-Type\": \"multipart/form-data\" \x7d"])] := by
    decide +kernel
  obtain ⟨R, h, hread⟩ := Document.resolve_of_map hrun
  obtain ⟨op, hop, hread⟩ := List.mem_map.mp (hread ▸ List.mem_singleton_self _)
  simp only [Prod.mk.injEq] at hread
  obtain ⟨hbody, hdata, hheaders⟩ := hread
  have hfirst : FirstNamed op.bodyParams "addNoteRequest" := by
    rw [hbody]
    exact ⟨by decide, [], [], rfl, by simp⟩
  exact ⟨R, op, h, hop, .body hfirst, hdata, hheaders⟩

end ApiClient

import ApiClient.Proofs.Letters
import ApiClient.Proofs.Placeholders
import ApiClient.Proofs.RequestFields

/-! The arguments of a request function. The request mentions arguments in its address, in its query and
as its body; all of them are among the names that the function takes, and these are the names of the
fields of the request. How a name is made an argument does not matter. -/

namespace ApiClient

/-- The names that the request function takes, as `rename` writes them. -/
def Endpoint.arguments (rename : String → String) (op : Endpoint) : List String :=
  (TypeScript.given (op.pathParams ++ op.queryParams ++ op.bodyParams ++ op.formParams)).map rename

/-- The properties of the type of the arguments. -/
def Endpoint.properties (rename : String → String) (op : Endpoint) : List String :=
  op.requestType.map fun f => rename f.1.name

namespace TypeScript

/-- What the object that describes a request is written from. A query parameter has a key if its
argument has another name. -/
structure Request where
  url : List Piece
  method : String
  params : List (Option String × String)
  data : Option (String × String)

namespace Request

def of (rename : String → String) (op : Endpoint) : Request where
  url := (pieces none op.url.toList).map (.rename fun name => (rename (String.ofList name)).toList)
  method := op.method.text
  params := (given op.queryParams).map fun raw =>
    (if rename raw = raw then none else some raw, rename raw)
  data := (bodySource? op).map fun source => (rename source, contentType op)

/-- The arguments that the object mentions. -/
def arguments (r : Request) : List String :=
  r.url.filterMap (·.name?.map String.ofList) ++ r.params.map (·.2) ++ (r.data.map (·.1)).toList

def address (r : Request) : String := String.ofList (r.url.flatMap Piece.text)

def paramText : Option String × String → String
  | (none, argument) => argument
  | (some key, argument) => propertyKey key ++ ": " ++ argument

def entries (r : Request) : List String :=
  ["url: \x60" ++ r.address ++ "\x60", "method: \"" ++ r.method ++ "\""] ++
    (if r.params.isEmpty then []
      else ["params: \x7b " ++ ", ".intercalate (r.params.map paramText) ++ " \x7d"]) ++
    match r.data with
    | some (argument, type) =>
      ["data: " ++ argument, "headers: \x7b \"Content-Type\": \"" ++ type ++ "\" \x7d"]
    | none => []

end Request

variable {op : Endpoint} {rename : String → String}

theorem mem_given {names : List String} {name : String} :
    name ∈ given names ↔ name ∈ names ∧ name ≠ "" := by
  simp [given]

theorem address_of (op : Endpoint) : (Request.of argumentName op).address = interpolated op.url := by
  have hrename : (fun name => (argumentName (String.ofList name)).toList) = Text.lowerCamel :=
    funext fun name => by rw [argumentName, String.toList_ofList, String.toList_ofList]
  rw [Request.address, Request.of, hrename, flatMap_text_rename]
  rfl

theorem paramText_of (raw : String) :
    Request.paramText (if argumentName raw = raw then none else some raw, argumentName raw) =
      queryText raw := by
  rw [queryText]
  split_ifs with h
  · exact h
  · rfl

/-- The entries of a request are written from its parts. -/
theorem requestEntries_eq (op : Endpoint) :
    requestEntries op = (Request.of argumentName op).entries := by
  have hparams : (Request.of argumentName op).params.map Request.paramText =
      (given op.queryParams).map queryText := by
    rw [Request.of, List.map_map]
    exact List.map_congr_left fun raw _ => paramText_of raw
  have hempty : (Request.of argumentName op).params.isEmpty =
      ((given op.queryParams).map queryText).isEmpty := by
    rw [← hparams, List.isEmpty_map]
  rw [requestEntries, Request.entries, address_of, hparams, hempty, Request.of]
  cases bodySource? op <;> rfl

/-- Properties of these names with the types of the fields. -/
def propertyTexts (g : Registry) (names : List String) (fields : Fields) : List String :=
  List.zipWith (fun name f => propertyText name f.1.optional (typeText g f.2)) names fields

theorem argumentTypes_eq (g : Registry) (op : Endpoint) :
    argumentTypes g op = propertyTexts g (op.properties argumentName) op.requestType := by
  rw [propertyTexts, Endpoint.properties, List.zipWith_map_left, List.zipWith_self]
  rfl

/-- One object that is taken apart into these names, with the type of these properties. Without names
nothing is written. -/
def takenApart (names properties : List String) : String :=
  if names = [] then ""
  else "\x7b " ++ ", ".intercalate names ++ " \x7d: " ++
    if properties = [] then "\x7b\x7d" else "\x7b " ++ " ".intercalate properties ++ " \x7d"

theorem requestArguments_eq (g : Registry) (op : Endpoint) :
    requestArguments g op = takenApart (argumentNames op) (argumentTypes g op) := by
  rw [requestArguments, takenApart]
  split
  · rename_i hnames
    rw [if_pos hnames]
  · rename_i hnames
    rw [if_neg hnames]
    simp only [List.isEmpty_iff]

/-- What is sent as the body is one of the parameters that go there. -/
theorem mem_of_bodySource? {source : String} (h : bodySource? op = some source) :
    source ∈ given (op.bodyParams ++ op.formParams) := by
  rw [given, List.filter_append, List.mem_append]
  rw [bodySource?, Option.or_eq_some_iff] at h
  rcases h with h | ⟨-, h⟩
  · exact .inl (List.mem_of_mem_head? h)
  · exact .inr (List.mem_of_mem_head? h)

/-- The request mentions no argument that the function does not take, if every placeholder of the address
is the name of a parameter. -/
theorem arguments_bound
    (h : ∀ name, .placeholder name ∈ pieces none op.url.toList →
      name ≠ [] ∧ String.ofList name ∈ op.pathParams) :
    ∀ x ∈ (Request.of rename op).arguments, x ∈ op.arguments rename := by
  intro x hx
  rw [Endpoint.arguments, List.mem_map]
  simp only [Request.arguments, List.mem_append] at hx
  rcases hx with (hx | hx) | hx
  · obtain ⟨piece, hpiece, hname⟩ := List.mem_filterMap.mp hx
    obtain ⟨piece, hmem, rfl⟩ := List.mem_map.mp hpiece
    cases piece with
    | char c => simp [Piece.rename, Piece.name?] at hname
    | placeholder name =>
      obtain ⟨hne, hname'⟩ := h name hmem
      refine ⟨String.ofList name, ?_, by simpa [Piece.rename, Piece.name?] using hname⟩
      simp [mem_given, hname', hne]
  · obtain ⟨param, hparam, rfl⟩ := List.mem_map.mp hx
    obtain ⟨raw, hraw, rfl⟩ := List.mem_map.mp hparam
    rw [mem_given] at hraw
    exact ⟨raw, by simp [mem_given, hraw], rfl⟩
  · simp only [Request.of, Option.map_map, Option.mem_toList, Option.map_eq_some_iff] at hx
    obtain ⟨source, hsource, rfl⟩ := hx
    have hmem := mem_of_bodySource? hsource
    rw [mem_given, List.mem_append] at hmem
    refine ⟨source, ?_, rfl⟩
    simp only [mem_given, List.mem_append]
    tauto

/-- A request is read as it is written: every placeholder of its address is one argument. -/
theorem pieces_address (h : Closed (pieces none op.url.toList))
    (hrename : ∀ name, '}' ∉ (rename name).toList) :
    pieces none (Request.of rename op).address.toList = (Request.of rename op).url := by
  rw [Request.address, String.toList_ofList]
  refine pieces_flatMap_text (closed_map_rename.mpr h) fun name hmem => ?_
  obtain ⟨piece, -, hpiece⟩ := List.mem_map.mp hmem
  cases piece with
  | char c => simp [Piece.rename] at hpiece
  | placeholder raw =>
    obtain rfl := Piece.placeholder.inj hpiece
    exact hrename _

theorem close_not_mem_argumentName (name : String) : '}' ∉ (argumentName name).toList :=
  fun hmem => absurd (inWord_of_mem_argumentName hmem (by decide)) (by decide)

theorem pieces_interpolated (h : Closed (pieces none op.url.toList)) :
    pieces none (interpolated op.url).toList = (Request.of argumentName op).url := by
  rw [← address_of]
  exact pieces_address h close_not_mem_argumentName

end TypeScript

open TypeScript (Piece Request)

/-- The text of the function is written from its request, its arguments and their properties. -/
structure Endpoint.Written (op : Endpoint) : Prop where
  entries : TypeScript.requestEntries op = (Request.of argumentName op).entries
  address : TypeScript.pieces none (TypeScript.interpolated op.url).toList =
    (Request.of argumentName op).url
  arguments : TypeScript.argumentNames op = op.arguments argumentName
  properties : ∀ g, TypeScript.argumentTypes g op =
    TypeScript.propertyTexts g (op.properties argumentName) op.requestType
  printed : ∀ g, TypeScript.requestArguments g op = TypeScript.takenApart (op.arguments argumentName)
    (TypeScript.propertyTexts g (op.properties argumentName) op.requestType)

/-- The function takes the names of the fields of its request, and the request mentions no other. -/
structure Endpoint.Bound (op : Endpoint) (rename : String → String) : Prop where
  mentions : ∀ x ∈ (Request.of rename op).arguments, x ∈ op.arguments rename
  fields : ∀ x, x ∈ op.arguments rename ↔
    ∃ f ∈ op.requestType, f.1.name ≠ "" ∧ rename f.1.name = x
  properties : "" ∉ op.pathParams ++ op.queryParams ++ op.bodyParams ++ op.formParams →
    ∀ x, x ∈ op.arguments rename ↔ x ∈ op.properties rename

section

variable {c : Components} {site : Site} {p : Pass} {ps : List Parameter} {body : List Contributor}
  {op : Endpoint} {rename : String → String}

/-- The names in the groups are the names of the fields. -/
theorem Endpoint.Gathers.mem_groups (h : op.Gathers c site p ps body) {name : String} :
    name ∈ op.pathParams ++ op.queryParams ++ op.bodyParams ++ op.formParams ↔
      ∃ f ∈ op.requestType, f.1.name = name := by
  simp only [h.names, List.mem_append, or_assoc]

theorem Endpoint.Gathers.mem_arguments (h : op.Gathers c site p ps body) {x : String} :
    x ∈ op.arguments rename ↔ ∃ f ∈ op.requestType, f.1.name ≠ "" ∧ rename f.1.name = x := by
  simp only [arguments, List.mem_map, TypeScript.mem_given, h.mem_groups]
  constructor
  · rintro ⟨_, ⟨⟨f, hf, rfl⟩, hblank⟩, rfl⟩
    exact ⟨f, hf, hblank, rfl⟩
  · rintro ⟨f, hf, hblank, rfl⟩
    exact ⟨f.1.name, ⟨⟨f, hf, rfl⟩, hblank⟩, rfl⟩

theorem Endpoint.Gathers.bound (h : op.Gathers c site p ps body)
    (hplaceholder : ∀ name, .placeholder name ∈ TypeScript.pieces none op.url.toList →
      name ≠ [] ∧ String.ofList name ∈ op.pathParams) :
    op.Bound rename where
  mentions := TypeScript.arguments_bound hplaceholder
  fields _ := h.mem_arguments
  properties hblank x := by
    rw [h.mem_arguments, properties, List.mem_map]
    refine exists_congr fun f => and_congr_right fun hf => and_iff_right fun hname => hblank ?_
    exact h.mem_groups.mpr ⟨f, hf, hname⟩

theorem Endpoint.written (h : TypeScript.Closed (TypeScript.pieces none op.url.toList)) :
    op.Written where
  entries := TypeScript.requestEntries_eq op
  address := TypeScript.pieces_interpolated h
  arguments := rfl
  properties g := TypeScript.argumentTypes_eq g op
  printed g := by
    rw [TypeScript.requestArguments_eq, TypeScript.argumentTypes_eq]
    rfl

end

/-- Under a path of literals and of placeholders that name path parameters, a request function mentions
no arguments but those that it takes, however names are made arguments. -/
theorem Document.endpoints_bound {d : Document} {g g' : Registry} {eps : List Endpoint}
    (h : d.endpoints g = (.ok eps, g')) {site : Site} {op : Endpoint}
    (hop : (site, op) ∈ d.sites.zip eps)
    (hbase : ¬ Text.Opens (Url.basePath d.servers).toList)
    (hpath : ∀ segment ∈ Text.pieces (· == '/') site.path.toList,
      TypeScript.Segment (fun name => name ≠ [] ∧ String.ofList name ∈ op.pathParams) segment) :
    op.Written ∧ ∀ rename, op.Bound rename := by
  rw [endpoints_apply] at h
  have hrun : Resolver.endpoints d { registry := g } =
      (.ok eps, (Resolver.endpoints d { registry := g }).2) :=
    Prod.ext (Prod.mk.inj h).1 rfl
  obtain ⟨before, after, bs, p, q, -, -, hmade⟩ :=
    List.forall₂_zip (Resolver.mapM_splits hrun) hop
  obtain ⟨ps, body, hgathers⟩ := Resolver.endpoint_gathers hmade
  obtain ⟨R, types, t, z, -, -, -, hendpoint⟩ := Resolver.endpoint_eq_ok hmade
  have hurl : op.url = Url.request (Url.basePath d.servers) site.path := by
    rw [hendpoint]
    rfl
  obtain ⟨hclosed, hplaceholder⟩ := TypeScript.pieces_request hbase hpath
  rw [← hurl] at hclosed hplaceholder
  exact ⟨Endpoint.written hclosed, fun rename => hgathers.bound hplaceholder⟩

/-- A request with an argument in each of its parts. -/
def linesDocument : Document where
  servers := ["https://notes.example/api/v1"]
  paths := [("/notes/{note-id}/lines", {
    operation? := fun m => if m = .post then some {
      operationId := some "addLine"
      parameters := [
        .inline { name := "note-id", location := "path", required := true },
        .inline { name := "dry_run", location := "query" }]
      requestBody := some (.inline ⟨[("application/json", none)]⟩) }
      else none })]

theorem endpoints_bound_lines :
    ∃ eps g site op, linesDocument.endpoints .empty = (.ok eps, g) ∧
      (site, op) ∈ linesDocument.sites.zip eps ∧
      ¬ Text.Opens (Url.basePath linesDocument.servers).toList ∧
      (∀ segment ∈ Text.pieces (· == '/') site.path.toList,
        TypeScript.Segment (fun name => name ≠ [] ∧ String.ofList name ∈ op.pathParams) segment) ∧
      TypeScript.interpolated op.url = "/v1/notes/$\x7bnoteId\x7d/lines" ∧
      (Request.of argumentName op).arguments = ["noteId", "dryRun", "addLineRequest"] ∧
      op.Written ∧ ∀ rename, op.Bound rename := by
  have hrun : (linesDocument.endpoints .empty).1.toOption.map (fun eps =>
      (linesDocument.sites.zip eps).map fun e => (Text.pieces (· == '/') e.1.path.toList,
        e.2.pathParams, TypeScript.interpolated e.2.url, (Request.of argumentName e.2).arguments)) =
      some [([[], "notes".toList, "\x7bnote-id\x7d".toList, "lines".toList], ["note-id"],
        "/v1/notes/$\x7bnoteId\x7d/lines", ["noteId", "dryRun", "addLineRequest"])] := by
    decide +kernel
  obtain ⟨R, eps, -, hpass, hread⟩ := Document.resolve_of_endpoints hrun
  obtain ⟨⟨site, op⟩, hop, hread⟩ := List.mem_map.mp (hread ▸ List.mem_singleton_self _)
  simp only [Prod.mk.injEq] at hread
  obtain ⟨hsegments, hnames, hurl, harguments⟩ := hread
  have hbase : ¬ Text.Opens (Url.basePath linesDocument.servers).toList := by decide +kernel
  have hpath : ∀ segment ∈ Text.pieces (· == '/') site.path.toList,
      TypeScript.Segment (fun name => name ≠ [] ∧ String.ofList name ∈ op.pathParams) segment := by
    rw [hsegments, hnames, List.forall_mem_cons, List.forall_mem_cons, List.forall_mem_cons,
      List.forall_mem_singleton]
    exact ⟨.literal (by decide) (by decide), .literal (by decide) (by decide),
      @TypeScript.Segment.placeholder _ "note-id".toList (by decide) (by decide),
      .literal (by decide) (by decide)⟩
  exact ⟨eps, R.definitions, site, op, hpass, hop, hbase, hpath, hurl, harguments,
    Document.endpoints_bound hpass hop hbase hpath⟩

end ApiClient

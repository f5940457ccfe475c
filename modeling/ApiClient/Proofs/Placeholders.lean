import ApiClient.TypeScript.Request
import ApiClient.Url
import Mathlib

/-! What the address of a request reads as: characters, and placeholders with the names in them. The path
of a description that is cut into literal segments and placeholders reads as just these, so that
renaming touches the names and nothing else. -/

namespace ApiClient

theorem Text.not_pair_infix_iff {x y : Char} {cs : List Char} :
    ¬ [x, y] <:+: cs ↔ cs.IsChain fun a b => a = x → b ≠ y := by
  rw [List.isChain_iff_forall_rel_of_append_cons_cons]
  constructor
  · rintro h a b before after rfl rfl rfl
    exact h ⟨before, after, by simp⟩
  · rintro h ⟨before, after, rfl⟩
    exact @h x y before after (by simp) rfl rfl

/-- A placeholder opens somewhere in the text. -/
def Text.Opens (cs : List Char) : Prop := ['$', '{'] <:+: cs

instance (cs : List Char) : Decidable (Text.Opens cs) := inferInstanceAs (Decidable (_ <:+: _))

theorem Text.not_opens_iff {cs : List Char} :
    ¬ Opens cs ↔ cs.IsChain fun a b => a = '$' → b ≠ '{' := not_pair_infix_iff

theorem Text.joined_cons (c : Char) (p q : List Char) (ps : List (List Char)) :
    joined c (p :: q :: ps) = p ++ c :: joined c (q :: ps) := by
  simp [joined, List.intercalate_cons_cons]

namespace TypeScript

open Text (Opens not_opens_iff joined_cons)

inductive Piece where
  | char (c : Char)
  | placeholder (name : List Char)

namespace Piece

def text : Piece → List Char
  | char c => [c]
  | placeholder name => '$' :: '{' :: (name ++ ['}'])

def rename (f : List Char → List Char) : Piece → Piece
  | char c => char c
  | placeholder name => placeholder (f name)

def name? : Piece → Option (List Char)
  | char _ => none
  | placeholder name => some name

end Piece

/-- Reads a text. The name of an open placeholder is kept, last character first; one that is not closed
is read as characters. -/
def pieces : Option (List Char) → List Char → List Piece
  | none, [] => []
  | none, '$' :: '{' :: rest => pieces (some []) rest
  | none, c :: rest => .char c :: pieces none rest
  | some name, [] => ('$' :: '{' :: name.reverse).map .char
  | some name, '}' :: rest => .placeholder name.reverse :: pieces none rest
  | some name, c :: rest => pieces (some (c :: name)) rest

@[simp] theorem flatMap_text_char (cs : List Char) : (cs.map Piece.char).flatMap Piece.text = cs := by
  induction cs with
  | nil => rfl
  | cons c cs ih => simp [Piece.text, ih]

/-- Renaming the placeholders of a text is writing its pieces with other names. -/
theorem flatMap_text_rename (f : List Char → List Char) (name? : Option (List Char))
    (cs : List Char) :
    ((pieces name? cs).map (Piece.rename f)).flatMap Piece.text =
      (if name?.isSome then ['$', '{'] else []) ++ renamePlaceholders f name? cs := by
  fun_induction pieces name? cs with
  | case1 => rfl
  | case2 rest ih => simpa [renamePlaceholders] using ih
  | case3 c rest hopen ih =>
    rw [renamePlaceholders.eq_3 _ _ _ hopen, List.map_cons, List.flatMap_cons, ih]
    rfl
  | case4 name =>
    rw [List.map_map, renamePlaceholders]
    exact flatMap_text_char _
  | case5 name rest ih =>
    rw [renamePlaceholders, List.map_cons, List.flatMap_cons, ih]
    simp [Piece.rename, Piece.text]
  | case6 name c rest hclose ih =>
    rw [renamePlaceholders.eq_6 _ _ _ _ hclose, ih]
    rfl

variable {cs name rest : List Char}

theorem pieces_cons {c : Char} (h : c = '$' → rest.head? ≠ some '{') :
    pieces none (c :: rest) = .char c :: pieces none rest :=
  pieces.eq_3 c rest fun rest' hc hrest => h hc (by simp [hrest])

theorem pieces_name (h : '}' ∉ name) (before rest : List Char) :
    pieces (some before) (name ++ '}' :: rest) =
      .placeholder (before.reverse ++ name) :: pieces none rest := by
  induction name generalizing before with
  | nil => simp [pieces]
  | cons c name ih =>
    have hc : c ≠ '}' := fun hc => h (hc ▸ List.mem_cons_self)
    have hname : '}' ∉ name := fun hmem => h (List.mem_cons_of_mem _ hmem)
    rw [List.cons_append, pieces.eq_6 _ _ _ hc, ih hname]
    simp

/-- A text in which no placeholder opens is read character by character. -/
theorem pieces_append (h : ¬ Opens cs) (hrest : rest.head? ≠ some '{') :
    pieces none (cs ++ rest) = cs.map .char ++ pieces none rest := by
  rw [not_opens_iff] at h
  induction cs with
  | nil => rfl
  | cons c cs ih =>
    obtain ⟨hnext, hcs⟩ := List.isChain_cons.mp h
    rw [List.cons_append, pieces_cons, ih hcs]
    · rfl
    · rintro rfl
      cases cs with
      | nil => exact hrest
      | cons b cs => simpa using hnext b rfl rfl

/-! ### Paths -/

/-- A segment of a path: a placeholder with a name of which `Name` holds, or a text in which nothing
opens. -/
inductive Segment (Name : List Char → Prop) : List Char → Prop
  | placeholder {name : List Char} : Name name → '}' ∉ name → Segment Name ('{' :: (name ++ ['}']))
  | literal {cs : List Char} : cs.head? ≠ some '{' → ¬ Opens cs → Segment Name cs

/-- What a segment is read as, once it is marked. -/
def segmentPieces : List Char → List Piece
  | '{' :: rest => [.placeholder rest.dropLast]
  | cs => cs.map .char

def pathPieces (segments : List (List Char)) : List Piece :=
  [.char '/'].intercalate (segments.map segmentPieces)

variable {Name : List Char → Prop} {segment : List Char} {segments : List (List Char)}

theorem markSegment_of_head (h : cs.head? ≠ some '{') : Url.markSegment cs = cs := by
  rw [Url.markSegment.eq_def]
  split
  · simp at h
  · rfl

theorem segmentPieces_of_head (h : cs.head? ≠ some '{') : segmentPieces cs = cs.map .char := by
  rw [segmentPieces.eq_def]
  split
  · simp at h
  · rfl

theorem Segment.pieces_append (h : Segment Name segment) (hrest : rest.head? ≠ some '{') :
    pieces none (Url.markSegment segment ++ rest) = segmentPieces segment ++ pieces none rest := by
  cases h with
  | @placeholder name _ hclosed =>
    have hread := pieces_name hclosed [] rest
    simpa [Url.markSegment, pieces, segmentPieces] using hread
  | literal hhead hplain =>
    rw [markSegment_of_head hhead, segmentPieces_of_head hhead,
      TypeScript.pieces_append hplain hrest]

theorem Segment.head?_mark (h : Segment Name segment) : (Url.markSegment segment).head? ≠ some '{' := by
  cases h with
  | placeholder => simp [Url.markSegment]
  | literal hhead _ => rwa [markSegment_of_head hhead]

theorem pathPieces_cons (segment next : List Char) (segments : List (List Char)) :
    pathPieces (segment :: next :: segments) =
      segmentPieces segment ++ .char '/' :: pathPieces (next :: segments) := by
  simp [pathPieces, List.intercalate_cons_cons]

theorem head?_template (h : ∀ segment ∈ segments, Segment Name segment) :
    (Text.joined '/' (segments.map Url.markSegment)).head? ≠ some '{' := by
  cases segments with
  | nil => simp [Text.joined]
  | cons segment rest =>
    have hhead := (h segment List.mem_cons_self).head?_mark
    cases rest with
    | nil => simpa [Text.joined] using hhead
    | cons next rest =>
      rw [List.map_cons, List.map_cons, joined_cons, List.head?_append]
      cases hmark : (Url.markSegment segment).head? with
      | none => simp
      | some c => simpa [hmark] using hhead

/-- A template is read segment by segment. -/
theorem pieces_template (h : ∀ segment ∈ segments, Segment Name segment) :
    pieces none (Text.joined '/' (segments.map Url.markSegment)) = pathPieces segments := by
  induction segments with
  | nil => rfl
  | cons segment rest ih =>
    have hsegment := h segment List.mem_cons_self
    cases rest with
    | nil =>
      have hend : ([] : List Char).head? ≠ some '{' := by simp
      simpa [Text.joined, pathPieces, pieces] using hsegment.pieces_append hend
    | cons next rest =>
      have hrest := ih fun s hs => h s (List.mem_cons_of_mem _ hs)
      rw [List.map_cons] at hrest
      rw [List.map_cons, List.map_cons, joined_cons, hsegment.pieces_append (by simp),
        pieces_cons (by simp), hrest, pathPieces_cons]

theorem Segment.placeholder_mem (h : Segment Name segment)
    (hmem : .placeholder name ∈ segmentPieces segment) : Name name := by
  cases h with
  | placeholder hname _ => simp_all [segmentPieces]
  | literal hhead _ => simp [segmentPieces_of_head hhead] at hmem

theorem placeholder_mem_pathPieces (h : ∀ segment ∈ segments, Segment Name segment)
    (hmem : .placeholder name ∈ pathPieces segments) : Name name := by
  induction segments with
  | nil => simp [pathPieces] at hmem
  | cons segment rest ih =>
    have hsegment := h segment List.mem_cons_self
    cases rest with
    | nil => exact hsegment.placeholder_mem (by simpa [pathPieces] using hmem)
    | cons next rest =>
      simp only [pathPieces_cons, List.mem_append, List.mem_cons, reduceCtorEq, false_or] at hmem
      rcases hmem with hmem | hmem
      · exact hsegment.placeholder_mem hmem
      · exact ih (fun s hs => h s (List.mem_cons_of_mem _ hs)) hmem

/-- Nothing is left open: no dollar sign stands before a brace but in front of a placeholder. -/
def Closed (ps : List Piece) : Prop := ps.IsChain fun p q => p = .char '$' → q ≠ .char '{'

theorem closed_map_char : Closed (cs.map .char) ↔ ¬ Opens cs := by
  rw [not_opens_iff, Closed, List.isChain_map]
  simp

theorem closed_map_rename {f : List Char → List Char} {ps : List Piece} :
    Closed (ps.map (Piece.rename f)) ↔ Closed ps := by
  have hrename (p : Piece) (c : Char) : p.rename f = .char c ↔ p = .char c := by
    cases p <;> simp [Piece.rename]
  rw [Closed, Closed, List.isChain_map]
  simp only [hrename, ne_eq]

/-- What is written from pieces is read as these pieces. -/
theorem pieces_flatMap_text {ps : List Piece} (hclosed : Closed ps)
    (hnames : ∀ name, .placeholder name ∈ ps → '}' ∉ name) :
    pieces none (ps.flatMap Piece.text) = ps := by
  induction ps with
  | nil => rfl
  | cons p ps ih =>
    obtain ⟨hnext, hrest⟩ := List.isChain_cons.mp hclosed
    have hread := ih hrest fun name hmem => hnames name (List.mem_cons_of_mem _ hmem)
    cases p with
    | char c =>
      rw [List.flatMap_cons, Piece.text, List.singleton_append, pieces_cons, hread]
      rintro rfl
      cases ps with
      | nil => simp
      | cons q ps =>
        have hq := hnext q rfl rfl
        cases q <;> simp_all [Piece.text]
    | placeholder name =>
      have hname := pieces_name (hnames name List.mem_cons_self) [] (ps.flatMap Piece.text)
      simpa [Piece.text, pieces, hread] using hname

theorem Segment.closed (h : Segment Name segment) : Closed (segmentPieces segment) := by
  cases h with
  | placeholder => exact .singleton _
  | literal hhead hplain =>
    rw [segmentPieces_of_head hhead]
    exact closed_map_char.mpr hplain

theorem Segment.head?_pieces (h : Segment Name segment) :
    (segmentPieces segment).head? ≠ some (.char '{') := by
  cases h with
  | placeholder => simp [segmentPieces]
  | literal hhead _ => simpa [segmentPieces_of_head hhead] using hhead

theorem closed_pathPieces (h : ∀ segment ∈ segments, Segment Name segment) :
    Closed (pathPieces segments) ∧ (pathPieces segments).head? ≠ some (.char '{') := by
  induction segments with
  | nil => exact ⟨.nil, by simp [pathPieces]⟩
  | cons segment rest ih =>
    have hsegment := h segment List.mem_cons_self
    cases rest with
    | nil => simpa [pathPieces] using And.intro hsegment.closed hsegment.head?_pieces
    | cons next rest =>
      obtain ⟨hrest, -⟩ := ih fun s hs => h s (List.mem_cons_of_mem _ hs)
      rw [pathPieces_cons]
      refine ⟨List.isChain_append.mpr ⟨hsegment.closed, List.isChain_cons.mpr ⟨by simp, hrest⟩, by simp⟩,
        ?_⟩
      rw [List.head?_append]
      cases hhead : (segmentPieces segment).head? with
      | none => simp
      | some p => simpa [hhead] using hsegment.head?_pieces

/-- The base path is read character by character, and the path after it segment by segment. -/
theorem pieces_append_template {base path : String} (hbase : ¬ Opens base.toList)
    (hpath : ∀ segment ∈ Text.pieces (· == '/') path.toList, Segment Name segment) :
    pieces none (base ++ Url.template path).toList =
      base.toList.map .char ++ pathPieces (Text.pieces (· == '/') path.toList) := by
  rw [String.toList_append, Url.template, String.toList_ofList,
    pieces_append hbase (head?_template hpath), pieces_template hpath]

/-- The address of a request reads as the base path and the path: its placeholders are those of the
path. -/
theorem pieces_request {base path : String} (hbase : ¬ Opens base.toList)
    (hpath : ∀ segment ∈ Text.pieces (· == '/') path.toList, Segment Name segment) :
    Closed (pieces none (Url.request base path).toList) ∧
      ∀ name, .placeholder name ∈ pieces none (Url.request base path).toList → Name name := by
  rw [Url.request]
  split_ifs
  · have hend : ([] : List Char).head? ≠ some '{' := by simp
    have hread := pieces_append hbase hend
    rw [List.append_nil, pieces, List.append_nil] at hread
    rw [hread]
    exact ⟨closed_map_char.mpr hbase, by simp⟩
  · rw [pieces_append_template hbase hpath]
    obtain ⟨hclosed, hhead⟩ := closed_pathPieces hpath
    refine ⟨List.isChain_append.mpr ⟨closed_map_char.mpr hbase, hclosed, ?_⟩, fun name hmem => ?_⟩
    · rintro - - q hq - rfl
      exact hhead hq
    · exact placeholder_mem_pathPieces hpath (by simpa using hmem)

end TypeScript

end ApiClient

import ApiClient.Proofs.Letters
import ApiClient.Proofs.Placeholders

/-! Paths as templates of addresses. A path is cut at its slashes into segments, and the address has the
same segments after the base path: literals as they are, and placeholders with the new names of their
names, whatever these names are. -/

namespace ApiClient

/-! ### Pieces and their joining -/

namespace Text

variable {c : Char} {sep : Char → Bool} {ps : List (List Char)}

theorem pieces_append_sep (hc : sep c) (cs ds : List Char) :
    pieces sep (cs ++ c :: ds) = pieces sep cs ++ pieces sep ds := by
  induction cs with
  | nil => simp [pieces, hc]
  | cons a cs ih =>
    obtain ⟨p, ps, hcs⟩ := List.exists_cons_of_ne_nil (pieces_ne_nil sep cs)
    by_cases ha : sep a
    · simp [pieces, ha, ih]
    · simp [pieces, ha, ih, hcs]

theorem pieces_of_forall {cs : List Char} (h : ∀ a ∈ cs, sep a = false) : pieces sep cs = [cs] := by
  induction cs with
  | nil => rfl
  | cons a cs ih =>
    rw [List.forall_mem_cons] at h
    simp [pieces, h.1, ih h.2]

theorem pieces_joined (hne : ps ≠ []) (h : ∀ p ∈ ps, c ∉ p) : pieces (· == c) (joined c ps) = ps := by
  induction ps with
  | nil => exact absurd rfl hne
  | cons p ps ih =>
    rw [List.forall_mem_cons] at h
    have hp : pieces (· == c) p = [p] := pieces_of_forall fun a ha => by
      simp only [beq_eq_false_iff_ne]
      rintro rfl
      exact h.1 ha
    cases ps with
    | nil => simpa [joined] using hp
    | cons q ps =>
      rw [joined_cons, pieces_append_sep (by simp), hp, ih (by simp) h.2, List.singleton_append]

theorem not_mem_of_mem_pieces {p cs : List Char} (h : p ∈ pieces (· == c) cs) : c ∉ p := fun hc => by
  simpa using not_sep_of_mem_pieces h hc

end Text

/-! ### Templates -/

namespace Url

variable {base path : String} {segment : List Char}

@[simp] theorem markSegment_eq_nil_iff : markSegment segment = [] ↔ segment = [] := by
  rw [markSegment.eq_def]
  split <;> simp

theorem slash_not_mem_markSegment (h : '/' ∉ segment) : '/' ∉ markSegment segment := by
  rw [markSegment.eq_def]
  split
  · simpa using h
  · exact h

/-- The segments of a template are those of the path, each marked. -/
theorem pieces_template (path : String) :
    Text.pieces (· == '/') (template path).toList =
      (Text.pieces (· == '/') path.toList).map markSegment := by
  rw [template, String.toList_ofList, Text.pieces_joined]
  · simpa using Text.pieces_ne_nil _ _
  · intro p hp
    obtain ⟨segment, hsegment, rfl⟩ := List.mem_map.mp hp
    exact slash_not_mem_markSegment (Text.not_mem_of_mem_pieces hsegment)

theorem template_eq_root_iff : template path = "/" ↔ path = "/" := by
  constructor
  · intro h
    have hpieces := pieces_template path
    rw [h] at hpieces
    have hempty : Text.pieces (· == '/') path.toList = [[], []] := by
      obtain ⟨p, ps, hps, hp, hrest⟩ := List.map_eq_cons_iff.mp hpieces.symm
      obtain ⟨q, qs, rfl, hq, hnil⟩ := List.map_eq_cons_iff.mp hrest
      rw [markSegment_eq_nil_iff] at hp hq
      rw [hps, hp, hq, List.map_eq_nil_iff.mp hnil]
    have hjoined := Text.joined_pieces '/' path.toList
    rw [hempty] at hjoined
    exact String.toList_inj.mp hjoined.symm
  · rintro rfl
    decide

theorem request_eq (base path : String) :
    request base path = if path = "/" ∧ base ≠ "" then base else base ++ template path := by
  rw [request]
  simp only [template_eq_root_iff]

end Url

namespace TypeScript

open Text (Opens)

/-- What becomes of a segment: a placeholder gets the new name of its name, and a literal stays. -/
inductive Fills (rename : List Char → List Char) : List Char → List Char → Prop
  | placeholder {name : List Char} : '}' ∉ name →
    Fills rename ('{' :: (name ++ ['}'])) ('$' :: '{' :: (rename name ++ ['}']))
  | literal {cs : List Char} : cs.head? ≠ some '{' → ¬ Opens cs → Fills rename cs cs

variable {rename : List Char → List Char} {Name : List Char → Prop} {segment : List Char}
  {segments : List (List Char)}

/-- A segment with its placeholder renamed, as it is written. -/
def filled (rename : List Char → List Char) (segment : List Char) : List Char :=
  ((segmentPieces segment).map (Piece.rename rename)).flatMap Piece.text

theorem Segment.fills (h : Segment Name segment) : Fills rename segment (filled rename segment) := by
  cases h with
  | placeholder _ hclosed =>
    simpa [filled, segmentPieces, Piece.rename, Piece.text] using Fills.placeholder hclosed
  | literal hhead hplain =>
    have hfilled : filled rename segment = segment := by
      rw [filled, segmentPieces_of_head hhead, List.map_map]
      exact flatMap_text_char segment
    rw [hfilled]
    exact .literal hhead hplain

theorem flatMap_text_pathPieces (rename : List Char → List Char) (segments : List (List Char)) :
    ((pathPieces segments).map (Piece.rename rename)).flatMap Piece.text =
      Text.joined '/' (segments.map (filled rename)) := by
  induction segments with
  | nil => rfl
  | cons segment rest ih =>
    cases rest with
    | nil => simp [pathPieces, Text.joined, filled]
    | cons next rest =>
      rw [List.map_cons] at ih
      rw [pathPieces_cons, List.map_append, List.map_cons, List.flatMap_append, List.flatMap_cons, ih,
        List.map_cons, List.map_cons, Text.joined_cons]
      rfl

theorem renamePlaceholders_eq (rename : List Char → List Char) (cs : List Char) :
    renamePlaceholders rename none cs =
      ((pieces none cs).map (Piece.rename rename)).flatMap Piece.text := by
  simpa using (flatMap_text_rename rename none cs).symm

/-- The address of a request with its placeholders renamed is the base path and the segments of the path,
one for one: the placeholders are those of the path with the new names, and all else is as it was. A new
name is not read again, whatever stands in it. -/
theorem template_filled {base path : String} (hbase : ¬ Opens base.toList) (hroot : path ≠ "/")
    (hpath : ∀ segment ∈ Text.pieces (· == '/') path.toList, Segment (fun _ => True) segment) :
    (∀ rename, ∃ segments, List.Forall₂ (Fills rename) (Text.pieces (· == '/') path.toList) segments ∧
      renamePlaceholders rename none (Url.request base path).toList =
        base.toList ++ Text.joined '/' segments) ∧
    ∃ segments, List.Forall₂ (Fills Text.lowerCamel) (Text.pieces (· == '/') path.toList) segments ∧
      interpolated (Url.request base path) = base ++ String.ofList (Text.joined '/' segments) := by
  have hfills (rename : List Char → List Char) :
      List.Forall₂ (Fills rename) (Text.pieces (· == '/') path.toList)
        ((Text.pieces (· == '/') path.toList).map (filled rename)) := by
    rw [List.forall₂_map_right_iff, List.forall₂_same]
    exact fun segment hsegment => (hpath segment hsegment).fills
  have hrenamed (rename : List Char → List Char) :
      renamePlaceholders rename none (Url.request base path).toList =
        base.toList ++ Text.joined '/' ((Text.pieces (· == '/') path.toList).map (filled rename)) := by
    rw [Url.request_eq, if_neg fun h => hroot h.1, renamePlaceholders_eq,
      pieces_append_template hbase hpath, List.map_append, List.flatMap_append,
      flatMap_text_pathPieces, List.map_map]
    exact congrArg (· ++ _) (flatMap_text_char base.toList)
  refine ⟨fun rename => ⟨_, hfills rename, hrenamed rename⟩, _, hfills Text.lowerCamel, ?_⟩
  rw [interpolated, hrenamed, String.ofList_append, String.ofList_toList]

/-- A path with an empty segment, and with marks inside of a name. -/
def oddPath : String := "/notes/\x7bnote_id\x7d//\x7ba$\x7bb\x7d"

theorem template_filled_odd :
    ¬ Opens "/v1$".toList ∧ oddPath ≠ "/" ∧
      (∀ segment ∈ Text.pieces (· == '/') oddPath.toList, Segment (fun _ => True) segment) ∧
      interpolated (Url.request "/v1$" oddPath) = "/v1$/notes/$\x7bnoteId\x7d//$\x7baB\x7d" ∧
      ∃ segments,
        List.Forall₂ (Fills Text.lowerCamel) (Text.pieces (· == '/') oddPath.toList) segments ∧
        interpolated (Url.request "/v1$" oddPath) =
          "/v1$" ++ String.ofList (Text.joined '/' segments) := by
  have hbase : ¬ Opens "/v1$".toList := by decide
  have hroot : oddPath ≠ "/" := by decide
  have hsegments : Text.pieces (· == '/') oddPath.toList =
      [[], "notes".toList, "\x7bnote_id\x7d".toList, [], "\x7ba$\x7bb\x7d".toList] := by decide
  have hpath : ∀ segment ∈ Text.pieces (· == '/') oddPath.toList, Segment (fun _ => True) segment := by
    rw [hsegments, List.forall_mem_cons, List.forall_mem_cons, List.forall_mem_cons,
      List.forall_mem_cons, List.forall_mem_singleton]
    exact ⟨.literal (by decide) (by decide), .literal (by decide) (by decide),
      @Segment.placeholder _ "note_id".toList trivial (by decide), .literal (by decide) (by decide),
      @Segment.placeholder _ "a$\x7bb".toList trivial (by decide)⟩
  exact ⟨hbase, hroot, hpath, by decide +kernel, (template_filled hbase hroot hpath).2⟩

end TypeScript

end ApiClient

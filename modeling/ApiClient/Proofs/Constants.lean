import ApiClient.Proofs.Literals
import ApiClient.Proofs.NormalForms
import ApiClient.Proofs.RequestFields

/-! The constants that enums are declared as. A mention of an enum stands for the keys or for the values of
its constant; these are the values of the enum as long as no string is the text of another value. -/

namespace ApiClient

namespace TypeScript

/-- The key that a value has in the constant of its enum. -/
def keyName : Json → String
  | .str s => s
  | v => v.text

def enumMembers (vs : List Json) : List (String × Literal) := vs.map fun v => (keyName v, Literal.of v)

/-- A string of the enum is the text of another value. -/
def Crossed (vs : List Json) : Prop := ∃ v ∈ vs, v.isStr = false ∧ .str v.text ∈ vs

/-- The text declares a constant of this name, an object with these members. -/
def DeclaresConstant (name text : String) (members : List (String × Literal)) : Prop :=
  ∃ body, text = "export const " ++ name ++ " = " ++ body ++ " as const;" ∧
    Takes (tokens body) (.record members) []

/-- What a type that mentions a constant stands for: its keys, or its values. -/
inductive StandsFor (name : String) (object : List (String × Literal)) : String → Set Literal → Prop
  | keys : StandsFor name object ("keyof typeof " ++ name) {l | ∃ e ∈ object, l = .text e.1}
  | values : StandsFor name object ("(typeof " ++ name ++ ")[keyof typeof " ++ name ++ "]")
      {l | ∃ e ∈ object, l = e.2}

variable {name text : String} {vs : List Json} {members : List (String × Literal)}

theorem DeclaresConstant.unique {others : List (String × Literal)}
    (h : DeclaresConstant name text members) (h' : DeclaresConstant name text others) :
    members = others := by
  obtain ⟨body, rfl, hbody⟩ := h
  obtain ⟨body', htext, hbody'⟩ := h'
  obtain rfl : body = body' := by simpa [String.append_assoc] using htext
  exact Literal.record.inj (hbody.unique hbody').1

theorem StandsFor.unique {object : List (String × Literal)} {ls ms : Set Literal}
    (h : StandsFor name object text ls) (h' : StandsFor name object text ms) : ls = ms := by
  have hdiffer : "keyof typeof " ++ name ≠ "(typeof " ++ name ++ ")[keyof typeof " ++ name ++ "]" := by
    intro heq
    have hfirst := congrArg (fun s : String => s.toList.head?) heq
    simp at hfirst
  generalize htext : text = t at h'
  cases h with
  | keys =>
    cases h' with
    | keys => rfl
    | values => exact absurd htext hdiffer
  | values =>
    cases h' with
    | keys => exact absurd htext.symm hdiffer
    | values => rfl

/-! ### The constant -/

theorem enumKey_eq (v : Json) : enumKey v = Json.quoted (keyName v) := by cases v <;> rfl

def memberText (v : Json) : String := "  " ++ enumKey v ++ ": " ++ v.text ++ ",\n"

theorem memberTexts_take (vs : List Json) :
    ∃ ts, Cuts (String.join (vs.map memberText)) ts ∧
      ∀ rest, TakesMembers (ts ++ .mark '}' :: rest) (enumMembers vs) rest := by
  induction vs with
  | nil => exact ⟨[], fun _ => rfl, fun _ => .close⟩
  | cons v vs ih =>
    obtain ⟨us, htexts, hus⟩ := ih
    obtain ⟨ts, htext, hts⟩ := writes_text v
    have hindent : Cuts "  " [] := fun _ => rfl
    have hcolon : Cuts ": " [.mark ':'] := fun _ => rfl
    have hcomma : Cuts ",\n" [.mark ','] := fun _ => rfl
    have hkey := (hindent.append (cuts_quoted (keyName v))).append hcolon
    rw [← enumKey_eq] at hkey
    have hmember := htext.enclosed hkey hcomma fun _ => breaks_cons rfl _
    refine ⟨_, by simpa [memberText] using hmember.append htexts, fun rest => ?_⟩
    have htakes : TakesMembers (.literal (keyName v) :: .mark ':' ::
        (ts ++ .mark ',' :: (us ++ .mark '}' :: rest))) (enumMembers (v :: vs)) rest :=
      .more (hts _) (hus rest)
    simpa using htakes

theorem definitionText_declares (g : Registry) (name : String) (vs : List Json) :
    DeclaresConstant name (definitionText g name (.enum vs)) (enumMembers vs) := by
  obtain ⟨ts, htexts, hts⟩ := memberTexts_take vs
  have hopen : Cuts "\x7b\n" [.mark '{'] := fun _ => rfl
  have hclose : Cuts "\x7d" [.mark '}'] := fun _ => rfl
  have hbody := ((hopen.append htexts).append hclose).lexes.tokens_eq
  refine ⟨"\x7b\n" ++ String.join (vs.map memberText) ++ "\x7d", ?_, ?_⟩
  · have hstart : " = \x7b\n" = " = " ++ "\x7b\n" := by decide
    have hend : "\x7d as const;" = "\x7d" ++ " as const;" := by decide
    show "export const " ++ name ++ " = \x7b\n" ++ String.join (vs.map memberText) ++
      "\x7d as const;" = _
    simp only [hstart, hend, String.append_assoc]
  · rw [hbody]
    exact .record (by simpa using hts [])

/-! ### Keys and values -/

/-- Values with one key are one literal. -/
def KeysApart (vs : List Json) : Prop :=
  ∀ v ∈ vs, ∀ w ∈ vs, keyName v = keyName w → Literal.of v = Literal.of w

/-- The values of an enum as literals. -/
def literals (vs : List Json) : Set Literal := {l | ∃ v ∈ vs, l = Literal.of v}

theorem keyName_of_not_isStr {v : Json} (h : v.isStr = false) : keyName v = v.text := by
  cases v <;> first | rfl | cases h

theorem eq_str_of_isStr {v : Json} (h : v.isStr = true) : v = .str (keyName v) := by
  cases v <;> first | rfl | cases h

theorem of_eq_text_iff {v : Json} {s : String} : Literal.of v = .text s ↔ v = .str s := by
  cases v <;> simp [Literal.of]

theorem keysApart_iff : KeysApart vs ↔ ¬ Crossed vs := by
  constructor
  · rintro h ⟨v, hv, hstr, hcrossed⟩
    have hkey : keyName v = keyName (.str v.text) := keyName_of_not_isStr hstr
    have hv' := of_eq_text_iff.mp (h v hv _ hcrossed hkey)
    rw [hv'] at hstr
    cases hstr
  · intro h v hv w hw hkey
    cases hvstr : v.isStr with
    | true =>
      cases hwstr : w.isStr with
      | true => rw [eq_str_of_isStr hvstr, eq_str_of_isStr hwstr, hkey]
      | false =>
        rw [eq_str_of_isStr hvstr, hkey, keyName_of_not_isStr hwstr] at hv
        exact absurd ⟨w, hw, hwstr, hv⟩ h
    | false =>
      cases hwstr : w.isStr with
      | true =>
        rw [eq_str_of_isStr hwstr, ← hkey, keyName_of_not_isStr hvstr] at hw
        exact absurd ⟨v, hv, hvstr, hw⟩ h
      | false =>
        rw [keyName_of_not_isStr hvstr, keyName_of_not_isStr hwstr] at hkey
        exact literal_of_eq_iff.mpr hkey

theorem mem_enumMembers {k : String} {l : Literal} :
    (k, l) ∈ enumMembers vs ↔ ∃ v ∈ vs, keyName v = k ∧ Literal.of v = l := by
  simp [enumMembers]

/-- Some value gives its literal to each key of the object. -/
theorem exists_of_mem_object {k : String} {l : Literal} (h : (k, l) ∈ Assoc.ofList (enumMembers vs)) :
    ∃ v ∈ vs, keyName v = k ∧ Literal.of v = l := by
  obtain ⟨before, after, hmembers, -⟩ := Assoc.mem_ofList_iff.mp h
  exact mem_enumMembers.mp (hmembers ▸ by simp)

theorem exists_mem_object {v : Json} (h : v ∈ vs) :
    ∃ l, (keyName v, l) ∈ Assoc.ofList (enumMembers vs) := by
  have hkey : keyName v ∈ (Assoc.ofList (enumMembers vs)).map (·.1) :=
    Assoc.mem_keys_ofList.mpr (List.mem_map.mpr ⟨_, mem_enumMembers.mpr ⟨v, h, rfl, rfl⟩, rfl⟩)
  obtain ⟨⟨k, l⟩, hmem, rfl⟩ := List.mem_map.mp hkey
  exact ⟨l, hmem⟩

theorem mem_object_unique {k : String} {l m : Literal} (hl : (k, l) ∈ Assoc.ofList (enumMembers vs))
    (hm : (k, m) ∈ Assoc.ofList (enumMembers vs)) : l = m :=
  congrArg Prod.snd (List.inj_on_of_nodup_map (Assoc.nodup_ofList _) hl hm rfl)

/-- Values with one literal have one key. -/
theorem keyName_eq_of_literal_eq {v w : Json} (h : Literal.of v = Literal.of w) :
    keyName v = keyName w := by
  cases hstr : w.isStr with
  | true =>
    rw [eq_str_of_isStr hstr] at h ⊢
    rw [of_eq_text_iff.mp h]
  | false =>
    have hstr' : v.isStr = false := by
      rw [← Bool.not_eq_true]
      intro hv
      rw [eq_str_of_isStr hv] at h
      rw [of_eq_text_iff.mp h.symm] at hstr
      cases hstr
    rw [keyName_of_not_isStr hstr, keyName_of_not_isStr hstr', literal_of_eq_iff.mp h]

/-- What a mention of the enum stands for. -/
def mentioned (vs : List Json) : Set Literal :=
  if vs.all Json.isStr then {l | ∃ e ∈ Assoc.ofList (enumMembers vs), l = .text e.1}
  else {l | ∃ e ∈ Assoc.ofList (enumMembers vs), l = e.2}

/-- The keys of the constant are the values of an enum of strings. -/
theorem mentioned_of_all (h : vs.all Json.isStr = true) : mentioned vs = literals vs := by
  rw [mentioned, if_pos h]
  rw [List.all_eq_true] at h
  ext l
  constructor
  · rintro ⟨⟨k, m⟩, he, rfl⟩
    obtain ⟨v, hv, rfl, -⟩ := exists_of_mem_object he
    exact ⟨v, hv, (of_eq_text_iff.mpr (eq_str_of_isStr (h v hv))).symm⟩
  · rintro ⟨v, hv, rfl⟩
    obtain ⟨m, he⟩ := exists_mem_object hv
    exact ⟨_, he, of_eq_text_iff.mpr (eq_str_of_isStr (h v hv))⟩

theorem mentioned_subset (vs : List Json) : mentioned vs ⊆ literals vs := by
  by_cases hall : vs.all Json.isStr = true
  · rw [mentioned_of_all hall]
  · rw [mentioned, if_neg hall]
    rintro _ ⟨⟨k, m⟩, he, rfl⟩
    obtain ⟨v, hv, -, hof⟩ := exists_of_mem_object he
    exact ⟨v, hv, hof.symm⟩

theorem mentioned_eq_iff : mentioned vs = literals vs ↔ KeysApart vs := by
  by_cases hall : vs.all Json.isStr = true
  · refine iff_of_true (mentioned_of_all hall) (keysApart_iff.mpr ?_)
    rintro ⟨v, hv, hstr, -⟩
    rw [List.all_eq_true.mp hall v hv] at hstr
    cases hstr
  · constructor
    · intro h v hv w hw hkey
      rw [mentioned, if_neg hall] at h
      have hmem {u : Json} (hu : u ∈ vs) :
          (keyName u, Literal.of u) ∈ Assoc.ofList (enumMembers vs) := by
        obtain ⟨⟨k, l⟩, he, hl⟩ : Literal.of u ∈ {l | ∃ e ∈ Assoc.ofList (enumMembers vs), l = e.2} :=
          h ▸ ⟨u, hu, rfl⟩
        obtain ⟨x, -, rfl, hof⟩ := exists_of_mem_object he
        rwa [← keyName_eq_of_literal_eq (hof.trans hl.symm), hl]
      exact mem_object_unique (hmem hv) (hkey ▸ hmem hw)
    · intro h
      refine (mentioned_subset vs).antisymm ?_
      rintro _ ⟨v, hv, rfl⟩
      obtain ⟨m, he⟩ := exists_mem_object hv
      obtain ⟨w, hw, hkey, rfl⟩ := exists_of_mem_object he
      rw [mentioned, if_neg hall]
      exact ⟨_, he, (h w hw v hv hkey).symm⟩

theorem standsFor_named {g : Registry} (h : g.get? name = some (.enum vs)) :
    StandsFor name (Assoc.ofList (enumMembers vs)) (typeText g (.named name)) (mentioned vs) := by
  have henum : enumValues? g name = some vs := by rw [enumValues?, h]
  show StandsFor name _ (namedText g name) _
  rw [namedText, henum, mentioned]
  dsimp only
  split_ifs
  · exact .keys
  · exact .values

/-- Numbers in normal form do not share a literal, so that different values do not share a key. -/
theorem keysApart_iff_of_normal (h : ∀ v ∈ vs, v.Normal) :
    KeysApart vs ↔ ∀ v ∈ vs, ∀ w ∈ vs, keyName v = keyName w → v = w := by
  constructor
  · intro hapart v hv w hw hkey
    exact of_injective v w (h v hv) (h w hw) (hapart v hv w hw hkey)
  · intro hapart v hv w hw hkey
    rw [hapart v hv w hw hkey]

/-- A mention of an enum stands for values of the enum only, and for all of them exactly if no two of them
share a key, that is, if no string among them is the text of another. -/
theorem enum_stands_for {g : Registry} (h : g.get? name = some (.enum vs)) :
    ∃ members,
      (∀ ms, DeclaresConstant name (definitionText g name (.enum vs)) ms ↔ ms = members) ∧
      ∃ ls, (∀ ms, StandsFor name (Assoc.ofList members) (typeText g (.named name)) ms ↔ ms = ls) ∧
        ls ⊆ literals vs ∧ (ls = literals vs ↔ KeysApart vs) ∧ (KeysApart vs ↔ ¬ Crossed vs) ∧
        ((∀ v ∈ vs, v.Normal) →
          (KeysApart vs ↔ ∀ v ∈ vs, ∀ w ∈ vs, keyName v = keyName w → v = w)) := by
  have hdeclares := definitionText_declares g name vs
  have hstands := standsFor_named h
  refine ⟨enumMembers vs, fun ms => ⟨fun hms => hms.unique hdeclares, ?_⟩, mentioned vs,
    fun ms => ⟨fun hms => hms.unique hstands, ?_⟩, mentioned_subset vs, mentioned_eq_iff,
    keysApart_iff, keysApart_iff_of_normal⟩
  · rintro rfl
    exact hdeclares
  · rintro rfl
    exact hstands

/-- An enum of a text, one and a half, and null. -/
def levelRegistry : Registry where
  entries := [("Level", .enum [.str "off", .float ⟨false, 6755399441055744, -52⟩, .null])]

theorem enum_stands_for_level :
    let vs : List Json := [.str "off", .float ⟨false, 6755399441055744, -52⟩, .null]
    levelRegistry.get? "Level" = some (.enum vs) ∧ (∀ v ∈ vs, v.Normal) ∧
      ∃ members,
        (∀ ms, DeclaresConstant "Level" (definitionText levelRegistry "Level" (.enum vs)) ms ↔
          ms = members) ∧
        ∃ ls, (∀ ms, StandsFor "Level" (Assoc.ofList members)
            (typeText levelRegistry (.named "Level")) ms ↔ ms = ls) ∧
          ls = {.text "off", .word "1.5", .word "null"} ∧
          ∀ v ∈ vs, ∀ w ∈ vs, keyName v = keyName w → v = w := by
  intro vs
  have hget : levelRegistry.get? "Level" = some (.enum vs) := rfl
  have hnormal : ∀ v ∈ vs, v.Normal := by
    have hround : Binary64.ofRatio false 3 2 = some ⟨false, 6755399441055744, -52⟩ := by decide +kernel
    have hfloat := Binary64.ofRatio_normal two_ne_zero hround
    simp [vs, Json.Normal, hfloat]
  have htext : Json.floatText ⟨false, 6755399441055744, -52⟩ = "1.5" := by decide +kernel
  have hcrossed : ¬ Crossed vs := by
    simp [vs, Crossed, Json.isStr, Json.text, htext]
  obtain ⟨members, hmembers, ls, hls, -, heq, hapart, hkeys⟩ := enum_stands_for hget
  refine ⟨hget, hnormal, members, hmembers, ls, hls, ?_, (hkeys hnormal).mp (hapart.mpr hcrossed)⟩
  rw [heq.mpr (hapart.mpr hcrossed)]
  ext l
  simp [vs, literals, Literal.of, htext]

/-- The text of a number, and the number. -/
def crossedRegistry : Registry where
  entries := [("State", .enum [.str "1", .int 1])]

/-- Two different values share a key, and the first one is lost. -/
theorem enum_loses_text :
    crossedRegistry.get? "State" = some (.enum [.str "1", .int 1]) ∧
      (Json.str "1").same (.int 1) = false ∧
      ∃ members ls, DeclaresConstant "State"
          (definitionText crossedRegistry "State" (.enum [.str "1", .int 1])) members ∧
        StandsFor "State" (Assoc.ofList members) (typeText crossedRegistry (.named "State")) ls ∧
        ls = {.word "1"} ∧ Literal.text "1" ∈ literals [.str "1", .int 1] ∧
        ls ≠ literals [.str "1", .int 1] := by
  have hget : crossedRegistry.get? "State" = some (.enum [.str "1", .int 1]) := rfl
  have hmembers : Assoc.ofList (enumMembers [.str "1", .int 1]) = [("1", .word "1")] := by
    have hkey : (Json.int 1).text = "1" := by decide
    have hword : toString (1 : Int) = "1" := by decide
    simp [enumMembers, Assoc.ofList, Assoc.put, hkey, keyName, Literal.of, hword]
  have hls : mentioned [.str "1", .int 1] = {.word "1"} := by
    rw [mentioned, hmembers]
    ext l
    simp [Json.isStr]
  have htext : Literal.text "1" ∈ literals [.str "1", .int 1] := ⟨.str "1", by simp, rfl⟩
  refine ⟨hget, by decide, _, _, definitionText_declares _ _ _, standsFor_named hget, hls, htext, ?_⟩
  intro heq
  rw [← heq, hls] at htext
  simp at htext

end TypeScript

end ApiClient

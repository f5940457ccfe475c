import ApiClient.Proofs.Templates

/-! The base path of a server, and the addresses under it. The base path comes from the segments of the
server's path alone, so that neither the scheme and the authority matter nor how many slashes there are
between and after the segments, unless these make a scheme of what stands before them. No slash is doubled
or lost where the path of a request is added. -/

namespace ApiClient

namespace Text

variable {a : Char} {mark before : List Char}

theorem cut?_append (h : a ∉ before) (mark after : List Char) :
    cut? (a :: mark) (before ++ a :: (mark ++ after)) = some (before, after) := by
  induction before with
  | nil => simp [cut?]
  | cons b before ih =>
    rw [List.mem_cons, not_or] at h
    simp [cut?, h.1, ih h.2]

theorem cut?_eq_none_iff {cs : List Char} : cut? mark cs = none ↔ ¬ mark <:+: cs := by
  induction cs with
  | nil => simp [cut?]
  | cons c cs ih =>
    rw [cut?, List.infix_cons_iff, ← List.isPrefixOf_iff_prefix]
    by_cases hstarts : mark.isPrefixOf (c :: cs)
    · simp [hstarts]
    · simpa [hstarts] using ih

end Text

namespace Url

variable {p q scheme authority : List Char} {ps : List (List Char)}

/-! ### The path of a server -/

/-- The path names no scheme. -/
def Bare (p : List Char) : Prop := ¬ [':', '/', '/'] <:+: p

instance (p : List Char) : Decidable (Bare p) := inferInstanceAs (Decidable (¬ _ <:+: _))

/-- The path is empty or starts with a slash. -/
def Rooted (p : List Char) : Prop := p = [] ∨ ∃ rest, p = '/' :: rest

theorem serverPath_of_bare (h : Bare p) : serverPath p = p := by
  rw [serverPath, Text.cut?_eq_none_iff.mpr h]

theorem serverPath_append (hscheme : ':' ∉ scheme) (hauthority : '/' ∉ authority) (hp : Rooted p) :
    serverPath (scheme ++ [':', '/', '/'] ++ authority ++ p) = p := by
  have hcut : Text.cut? [':', '/', '/'] (scheme ++ [':', '/', '/'] ++ authority ++ p) =
      some (scheme, authority ++ p) := by
    simpa using Text.cut?_append hscheme ['/', '/'] (authority ++ p)
  have hskip : authority.dropWhile (· != '/') = [] := by
    simpa [List.dropWhile_eq_nil_iff] using fun c hc => fun heq : c = '/' => hauthority (heq ▸ hc)
  rw [serverPath, hcut]
  obtain rfl | ⟨rest, rfl⟩ := hp
  · simpa using hskip
  · simp [List.dropWhile_append, hskip]

/-! ### Segments -/

@[simp] theorem segments_nil : segments [] = [] := rfl

theorem segments_append_slash (p q : List Char) : segments (p ++ '/' :: q) = segments p ++ segments q := by
  simp [segments, Text.pieces_append_sep]

theorem mem_segments {s : List Char} (h : s ∈ segments p) : s ≠ [] ∧ '/' ∉ s := by
  rw [segments, List.mem_filter] at h
  exact ⟨by simpa using h.2, Text.not_mem_of_mem_pieces h.1⟩

/-- The second path is the first one with one more slash, beside another one or at the end. -/
inductive Slashed : List Char → List Char → Prop
  | repeated (p q : List Char) : Slashed (p ++ '/' :: q) (p ++ '/' :: '/' :: q)
  | trailing (p : List Char) : Slashed p (p ++ ['/'])

theorem Slashed.segments_eq (h : Slashed p q) : segments p = segments q := by
  cases h with
  | repeated p q =>
    rw [segments_append_slash, segments_append_slash, ← List.nil_append ('/' :: q),
      segments_append_slash, segments_nil, List.nil_append]
  | trailing p =>
    rw [segments_append_slash, segments_nil, List.append_nil]

theorem Slashed.rooted (h : Slashed p q) (hp : Rooted p) : Rooted q := by
  cases h with
  | repeated p q =>
    cases p with
    | nil => exact .inr ⟨_, rfl⟩
    | cons c p =>
      obtain hp | ⟨rest, hp⟩ := hp
      · cases hp
      · exact .inr ⟨_, by rw [List.cons_append, (List.cons.inj hp).1]⟩
  | trailing p =>
    obtain rfl | ⟨rest, rfl⟩ := hp
    · exact .inr ⟨_, rfl⟩
    · exact .inr ⟨_, rfl⟩

/-- Taking a slash away names no scheme. -/
theorem Slashed.bare (h : Slashed p q) (hq : Bare q) : Bare p := by
  refine fun hmark => hq ?_
  clear hq
  cases h with
  | trailing p => exact hmark.trans (List.prefix_append p _).isInfix
  | repeated p q =>
    induction p with
    | nil =>
      rw [List.nil_append, List.infix_cons_iff] at hmark
      exact hmark.elim (by simp) fun hmark => hmark.trans ⟨['/', '/'], [], by simp⟩
    | cons c p ih =>
      rw [List.cons_append, List.infix_cons_iff] at hmark ⊢
      refine hmark.imp (fun hstart => ?_) ih
      -- the mark reaches over two characters, and there are still two slashes after the first
      obtain ⟨rfl, hslashes⟩ : ':' = c ∧ ['/', '/'] <+: p ++ '/' :: q := by simpa using hstart
      rcases p with _ | ⟨x, _ | ⟨y, p⟩⟩
      · simp
      · simpa using hslashes
      · simpa using hslashes

/-- The second path is the first one with more slashes, beside others or at the end. -/
abbrev MoreSlashed : List Char → List Char → Prop := Relation.ReflTransGen Slashed

theorem MoreSlashed.segments_eq (h : MoreSlashed p q) : segments p = segments q := by
  induction h with
  | refl => rfl
  | tail _ hstep ih => rw [ih, hstep.segments_eq]

theorem MoreSlashed.rooted (h : MoreSlashed p q) (hp : Rooted p) : Rooted q := by
  induction h with
  | refl => exact hp
  | tail _ hstep ih => exact hstep.rooted ih

theorem MoreSlashed.bare (h : MoreSlashed p q) (hq : Bare q) : Bare p := by
  induction h with
  | refl => exact hq
  | tail _ hstep ih => exact ih (hstep.bare hq)

/-! ### The base path -/

theorem ofSegments_eq (h : ps ≠ []) : ofSegments ps = '/' :: Text.joined '/' ps := by
  induction ps with
  | nil => exact absurd rfl h
  | cons s ps ih =>
    cases ps with
    | nil => simp [ofSegments, Text.joined]
    | cons t ps =>
      rw [Text.joined_cons, ← ih (by simp)]
      rfl

/-- No slash stands beside another one. -/
def Single (p : List Char) : Prop := ¬ ['/', '/'] <:+: p

instance (p : List Char) : Decidable (Single p) := inferInstanceAs (Decidable (¬ _ <:+: _))

theorem single_iff : Single p ↔ p.IsChain fun a b => a = '/' → b ≠ '/' := Text.not_pair_infix_iff

theorem single_of_not_mem (h : '/' ∉ p) : Single p := fun hmem => h (hmem.subset (by simp))

theorem single_append (hp : Single p) (hq : Single q) (hseam : p.getLast? ≠ some '/' ∨ q.head? ≠ some '/') :
    Single (p ++ q) := by
  rw [single_iff] at hp hq ⊢
  refine List.isChain_append.mpr ⟨hp, hq, ?_⟩
  rintro _ hx _ hy rfl rfl
  exact hseam.elim (· hx) (· hy)

theorem head?_ne_slash (h : '/' ∉ p) : p.head? ≠ some '/' := fun hhead => h (List.mem_of_mem_head? hhead)

theorem getLast?_ne_slash (h : '/' ∉ p) : p.getLast? ≠ some '/' := fun hlast =>
  h (List.mem_of_mem_getLast? hlast)

theorem ofSegments_single (h : ∀ s ∈ ps, s ≠ [] ∧ '/' ∉ s) :
    Single (ofSegments ps) ∧ (ofSegments ps).getLast? ≠ some '/' := by
  induction ps with
  | nil => decide
  | cons s ps ih =>
    obtain ⟨⟨hne, hs⟩, hps⟩ := List.forall_mem_cons.mp h
    obtain ⟨hsingle, hlast⟩ := ih hps
    have hfirst : ofSegments (s :: ps) = ['/'] ++ s ++ ofSegments ps := rfl
    have hslast : (['/'] ++ s).getLast? ≠ some '/' := by
      rw [List.getLast?_append_of_ne_nil _ hne]
      exact getLast?_ne_slash hs
    rw [hfirst]
    refine ⟨single_append (single_append (by decide) (single_of_not_mem hs) (.inr (head?_ne_slash hs)))
      hsingle (.inl hslast), ?_⟩
    rw [List.getLast?_append]
    cases htail : (ofSegments ps).getLast? with
    | none => simpa using hslast
    | some c => simpa [htail] using hlast

/-! ### The address under a base path -/

theorem single_append_slash_iff (hp : '/' ∉ p) :
    Single (p ++ '/' :: q) ↔ Single q ∧ q.head? ≠ some '/' := by
  constructor
  · intro h
    refine ⟨fun hmark => h (hmark.trans ⟨p ++ ['/'], [], by simp⟩), fun hhead => h ?_⟩
    cases q with
    | nil => cases hhead
    | cons c q =>
      obtain rfl : c = '/' := Option.some.inj hhead
      exact ⟨p, q, by simp⟩
  · rintro ⟨hq, hhead⟩
    have hslash : Single (['/'] ++ q) := single_append (by decide) hq (.inr hhead)
    exact single_append (single_of_not_mem hp) hslash (.inl (getLast?_ne_slash hp))

theorem head?_append_slash_iff (hp : '/' ∉ p) : (p ++ '/' :: q).head? = some '/' ↔ p = [] := by
  cases p with
  | nil => simp
  | cons c p => simpa using fun hc : c = '/' => hp (hc ▸ List.mem_cons_self)

/-- Marks make no slash, and no segment stops being empty. -/
theorem joined_markSegment (h : ∀ s ∈ ps, '/' ∉ s) (hsingle : Single (Text.joined '/' ps)) :
    Single (Text.joined '/' (ps.map markSegment)) ∧
      ((Text.joined '/' (ps.map markSegment)).head? = some '/' ↔ (Text.joined '/' ps).head? = some '/') := by
  induction ps with
  | nil => simpa using hsingle
  | cons s ps ih =>
    rw [List.forall_mem_cons] at h
    have hmark := slash_not_mem_markSegment h.1
    cases ps with
    | nil =>
      have hone (t : List Char) : Text.joined '/' [t] = t := by simp [Text.joined]
      rw [List.map_singleton, hone, hone]
      exact ⟨single_of_not_mem hmark, iff_of_false (head?_ne_slash hmark) (head?_ne_slash h.1)⟩
    | cons t ps =>
      rw [Text.joined_cons, single_append_slash_iff h.1] at hsingle
      obtain ⟨hrest, hhead⟩ := ih h.2 hsingle.1
      rw [List.map_cons] at hrest hhead
      rw [List.map_cons, List.map_cons, Text.joined_cons, Text.joined_cons,
        single_append_slash_iff hmark, head?_append_slash_iff hmark, head?_append_slash_iff h.1]
      exact ⟨⟨hrest, mt hhead.mp hsingle.2⟩, markSegment_eq_nil_iff⟩

theorem template_single {path : String} (h : Single path.toList) :
    Single (template path).toList ∧
      ((template path).toList.head? = some '/' ↔ path.toList.head? = some '/') := by
  have hmarked := joined_markSegment (fun _ => Text.not_mem_of_mem_pieces) (by rwa [Text.joined_pieces])
  rwa [Text.joined_pieces, ← String.toList_ofList (l := Text.joined _ _)] at hmarked

/-- What is left of a path without its first segment. -/
def withoutFirst (p : List Char) : String := String.ofList (ofSegments ((segments p).drop 1))

theorem withoutFirst_eq (h : MoreSlashed p q) : withoutFirst q = withoutFirst p := by
  rw [withoutFirst, withoutFirst, h.segments_eq]

theorem withoutFirst_of_le (h : (segments p).length ≤ 1) : withoutFirst p = "" := by
  rw [withoutFirst, List.drop_eq_nil_of_le h]
  rfl

theorem withoutFirst_of_lt (h : 1 < (segments p).length) :
    withoutFirst p = "/" ++ String.ofList (Text.joined '/' ((segments p).drop 1)) := by
  have hne : (segments p).drop 1 ≠ [] := by
    rw [← List.length_pos_iff, List.length_drop]
    omega
  rw [withoutFirst, ofSegments_eq hne, ← String.toList_inj]
  simp only [String.toList_append, String.toList_ofList]
  rfl

theorem withoutFirst_single (p : List Char) :
    Single (withoutFirst p).toList ∧ (withoutFirst p).toList.getLast? ≠ some '/' := by
  rw [withoutFirst, String.toList_ofList]
  exact ofSegments_single fun s hs => mem_segments (List.mem_of_mem_drop hs)

variable {rest : List String}

theorem basePath_of_bare {p : String} (h : Bare p.toList) : basePath (p :: rest) = withoutFirst p.toList := by
  rw [basePath, serverPath_of_bare h, withoutFirst]

theorem basePath_of_scheme {scheme authority p : String} (hscheme : ':' ∉ scheme.toList)
    (hauthority : '/' ∉ authority.toList) (hp : Rooted p.toList) :
    basePath ((scheme ++ "://" ++ authority ++ p) :: rest) = withoutFirst p.toList := by
  have hmark : "://".toList = [':', '/', '/'] := rfl
  simp only [basePath, String.toList_append, hmark]
  rw [serverPath_append hscheme hauthority hp, withoutFirst]

theorem basePath_single (servers : List String) :
    Single (basePath servers).toList ∧ (basePath servers).toList.getLast? ≠ some '/' := by
  cases servers with
  | nil => decide
  | cons url rest => exact withoutFirst_single (serverPath url.toList)

/-- The base path of a server address with a scheme is that of its path, whatever the scheme and the
authority. It is made of the segments of the path after the first one that hold something, so that more or
fewer slashes beside others or at the end change nothing, as long as they do not make a path into an
address with a scheme. No slash in it stands beside another one or at its end. So a path without doubled
slashes gives an address without doubled slashes: the base path itself for the root, and else the base
path and the template. -/
theorem basePath_canonical :
    (∀ (scheme authority p q : String) (rest rest' : List String),
      ':' ∉ scheme.toList → '/' ∉ authority.toList → Rooted p.toList →
        (Bare p.toList → basePath ((scheme ++ "://" ++ authority ++ p) :: rest) = basePath (p :: rest')) ∧
        (MoreSlashed p.toList q.toList →
          basePath ((scheme ++ "://" ++ authority ++ q) :: rest) =
            basePath ((scheme ++ "://" ++ authority ++ p) :: rest'))) ∧
    (∀ (p q : String) (rest rest' : List String), Bare q.toList → MoreSlashed p.toList q.toList →
      basePath (q :: rest) = basePath (p :: rest')) ∧
    (∀ (p : String) (rest : List String), Bare p.toList →
      ((segments p.toList).length ≤ 1 → basePath (p :: rest) = "") ∧
      (1 < (segments p.toList).length →
        basePath (p :: rest) = "/" ++ String.ofList (Text.joined '/' ((segments p.toList).drop 1)))) ∧
    (∀ servers, Single (basePath servers).toList ∧ (basePath servers).toList.getLast? ≠ some '/') ∧
    ∀ servers path, path.toList.head? = some '/' → Single path.toList →
      Single (request (basePath servers) path).toList ∧
      (path = "/" → basePath servers ≠ "" → request (basePath servers) path = basePath servers) ∧
      (¬ (path = "/" ∧ basePath servers ≠ "") →
        request (basePath servers) path = basePath servers ++ template path ∧
          (template path).toList.head? = some '/') := by
  refine ⟨fun scheme authority p q rest rest' hscheme hauthority hp => ⟨fun hbare => ?_, fun hmore => ?_⟩,
    fun p q rest rest' hbare hmore => ?_, fun p rest hbare => ⟨fun hle => ?_, fun hlt => ?_⟩,
    basePath_single, fun servers path hhead hsingle => ?_⟩
  · rw [basePath_of_scheme hscheme hauthority hp, basePath_of_bare hbare]
  · rw [basePath_of_scheme hscheme hauthority (hmore.rooted hp),
      basePath_of_scheme hscheme hauthority hp, withoutFirst_eq hmore]
  · rw [basePath_of_bare hbare, basePath_of_bare (hmore.bare hbare), withoutFirst_eq hmore]
  · rw [basePath_of_bare hbare, withoutFirst_of_le hle]
  · rw [basePath_of_bare hbare, withoutFirst_of_lt hlt]
  · obtain ⟨hbase, hlast⟩ := basePath_single servers
    obtain ⟨htemplate, hstart⟩ := template_single hsingle
    rw [request_eq]
    split_ifs with hroot
    · exact ⟨hbase, fun _ _ => rfl, fun hnot => absurd hroot hnot⟩
    · refine ⟨?_, fun hpath hne => absurd ⟨hpath, hne⟩ hroot, fun _ => ⟨rfl, hstart.mpr hhead⟩⟩
      rw [String.toList_append]
      exact single_append hbase htemplate (.inl hlast)

theorem basePath_canonical_doubled :
    basePath ["https://host:80/api//v1/"] = basePath ["/api/v1"] ∧ basePath ["/api/v1"] = "/v1" ∧
      request (basePath ["/api/v1"]) "/notes" = basePath ["/api/v1"] ++ template "/notes" := by
  have hmore : MoreSlashed "/api/v1".toList "/api//v1/".toList :=
    (Relation.ReflTransGen.single (Slashed.repeated "/api".toList "v1".toList)).tail (.trailing _)
  obtain ⟨hscheme, -, hbare, -, hrequest⟩ := basePath_canonical
  have haddress := hscheme "https" "host:80" "/api/v1" "/api//v1/" [] [] (by decide) (by decide)
    (.inr ⟨_, rfl⟩)
  have hbase : basePath ["/api/v1"] = "/v1" := (hbare "/api/v1" [] (by decide)).2 (by decide)
  refine ⟨(haddress.2 hmore).trans (haddress.1 (by decide)), hbase, ?_⟩
  exact ((hrequest ["/api/v1"] "/notes" rfl (by decide)).2.2 (by simp)).1

/-- One more slash behind a colon, and what stands before it is a scheme, so that nothing of the path is
left. -/
theorem basePath_colon_slash :
    Bare "/a:/b".toList ∧ MoreSlashed "/a:/b".toList "/a://b".toList ∧
      basePath ["/a:/b"] = "/b" ∧ basePath ["/a://b"] = "" :=
  ⟨by decide, .single (.repeated "/a:".toList "b".toList), by decide, by decide⟩

end Url

end ApiClient

import ApiClient.Proofs.Closure
import ApiClient.Proofs.Titles
import ApiClient.TypeScript.Types

/-! The names of shapes as names of types. They have the characters of the names that they are made from,
the first one in capital case, so that those that stand in names but not in identifiers are kept. -/

namespace ApiClient

namespace Text

/-! ### Spelling -/

/-- The text begins with a letter of ASCII, and all its characters pass. -/
def Spelled (ok : Char → Bool) (s : String) : Prop :=
  (∃ c ∈ s.toList.head?, c.isAlpha = true) ∧ ∀ c ∈ s.toList, ok c = true

def BeginsLarge (s : String) : Prop := ∃ c ∈ s.toList.head?, c.isUpper = true

variable {ok : Char → Bool} {s t wanted name : String} {c : Char} {cs : List Char}

theorem lt_of_isAlpha (h : c.isAlpha = true) : c.toNat < 128 := by
  simp only [Char.isAlpha, Char.isUpper, Char.isLower, Bool.or_eq_true, Bool.and_eq_true,
    decide_eq_true_eq, UInt32.le_iff_toNat_le, ge_iff_le] at h
  have hZ : 'Z'.val.toNat = 90 := rfl
  have hz : 'z'.val.toNat = 122 := rfl
  have hc : c.toNat = c.val.toNat := rfl
  omega

theorem head?_append (h : c ∈ s.toList.head?) (t : String) : c ∈ (s ++ t).toList.head? := by
  rw [String.toList_append, List.head?_append, Option.mem_def.mp h]
  rfl

theorem Spelled.append (hs : Spelled ok s) (ht : ∀ c ∈ t.toList, ok c = true) : Spelled ok (s ++ t) := by
  obtain ⟨⟨c, hc, halpha⟩, hchars⟩ := hs
  refine ⟨⟨c, head?_append hc t, halpha⟩, fun x hx => ?_⟩
  rw [String.toList_append, List.mem_append] at hx
  exact hx.elim (hchars x) (ht x)

theorem BeginsLarge.append (h : BeginsLarge s) (t : String) : BeginsLarge (s ++ t) := by
  obtain ⟨c, hc, hupper⟩ := h
  exact ⟨c, head?_append hc t, hupper⟩

theorem Spelled.toList_capitalCase (h : Spelled ok s) : ∃ c cs, s.toList = c :: cs ∧ c.isAlpha = true ∧
    (capitalCase s).toList = c.toUpper :: cs := by
  obtain ⟨⟨c, hc, halpha⟩, -⟩ := h
  obtain ⟨cs, hcs⟩ := List.head?_eq_some_iff.mp hc
  refine ⟨c, cs, hcs, halpha, ?_⟩
  rw [capitalCase, hcs]
  dsimp only
  rw [String.toList_ofList, upper_of_lt (lt_of_isAlpha halpha)]
  rfl

theorem Spelled.beginsLarge_capitalCase (h : Spelled ok s) : BeginsLarge (capitalCase s) := by
  obtain ⟨c, cs, -, halpha, hcapital⟩ := h.toList_capitalCase
  exact ⟨c.toUpper, by rw [hcapital]; rfl, by rw [Char.isUpper_toUpper_eq_isAlpha, halpha]⟩

theorem Spelled.beginsLarge_enumName {key parent : String} (hkey : Spelled ok key)
    (hparent : Spelled ok parent) : BeginsLarge (Schema.enumName key parent) := by
  rw [Schema.enumName]
  split_ifs
  · exact hkey.beginsLarge_capitalCase
  · exact hparent.beginsLarge_capitalCase.append _

theorem BeginsLarge.numbered (h : BeginsLarge wanted) (hname : Registry.IsNumbered wanted name) :
    BeginsLarge name := by
  obtain ⟨k, -, rfl⟩ := hname
  rw [Registry.numbered]
  split_ifs
  · exact h
  · exact h.append _

section

variable (hok : ∀ c : Char, c.isAlphanum = true → ok c = true)

include hok

theorem Spelled.capital (h : Spelled ok s) : Spelled ok (capitalCase s) := by
  obtain ⟨c, cs, hs, halpha, hcapital⟩ := h.toList_capitalCase
  have hupper : c.toUpper.isAlpha = true := by rw [Char.isAlpha_toUpper_eq_isAlpha, halpha]
  have hchars := h.2
  rw [hs, List.forall_mem_cons] at hchars
  rw [Spelled, hcapital, List.forall_mem_cons]
  exact ⟨⟨_, rfl, hupper⟩, hok _ (by simp [Char.isAlphanum, hupper]), hchars.2⟩

theorem Spelled.place {key parent : String} (hkey : Spelled ok key) (hparent : Spelled ok parent) :
    Spelled ok (Schema.enumName key parent) := by
  rw [Schema.enumName]
  split_ifs
  · exact hkey.capital hok
  · exact (hparent.capital hok).append (hkey.capital hok).2

theorem Spelled.numbered (h : Spelled ok wanted) (hname : Registry.IsNumbered wanted name) :
    Spelled ok name := by
  obtain ⟨k, -, rfl⟩ := hname
  rw [Registry.numbered]
  split_ifs
  · exact h
  · exact h.append fun c hc => hok c (by simp [Char.isAlphanum, isDigit_of_mem_toString hc])

end

end Text

open Text

/-! ### The names of a description -/

/-- The property holds of all names of components, properties, parameters and operations. An operation need
not have a name. -/
def Rules.names (P : String → Prop) : Rules where
  component := P
  properties ns := ∀ n ∈ ns, P n
  parameter := P
  operation id := id = "" ∨ P id

section

variable {P : String → Prop} {ok : Char → Bool} {d : Document} {R : Resolution}

theorem Rules.spelled_of_key (hok : ∀ c : Char, c.isAlphanum = true → ok c = true)
    (hP : ∀ s, P s → Spelled ok s) {key : String} (h : (Rules.names P).Key key) : Spelled ok key := by
  have hsuffix {suffix id : String} (hsuffix : Spelled Char.isAlphanum suffix) (hid : id = "" ∨ P id) :
      Spelled ok (id ++ suffix) := by
    have hchars : ∀ c ∈ suffix.toList, ok c = true := fun c hc => hok c (hsuffix.2 c hc)
    rcases hid with rfl | hid
    · rw [String.empty_append]
      exact ⟨hsuffix.1, hchars⟩
    · exact (hP id hid).append hchars
  cases h with
  | property hnames hn => exact hP key (hnames key hn)
  | parameter h => exact hP key h
  | request h => exact hsuffix (by simp [Spelled]) h
  | response h => exact hsuffix (by simp [Spelled]) h
  | component hc hn => exact ((hP _ hc).capital hok).numbered hok hn

/-- Names of shapes are spelled like the names of the description, and begin with a capital. -/
theorem Document.names_spelled (hok : ∀ c : Char, c.isAlphanum = true → ok c = true)
    (hP : ∀ s, P s → Spelled ok s) (hd : d.Obeys (.names P)) (h : d.resolve = .ok R) :
    ∀ n ∈ R.definitions.names, Spelled ok n ∧ BeginsLarge n := by
  have hstable : (Rules.names P).Stable (Registry.NamesHave fun n => Spelled ok n ∧ BeginsLarge n) := by
    refine Rules.namesHave_stable (fun c n hc hn => ?_) fun key parent n hkey hparent hn => ?_
    · have hname := hP c hc
      exact ⟨(hname.capital hok).numbered hok hn, hname.beginsLarge_capitalCase.numbered hn⟩
    · have hkey := Rules.spelled_of_key hok hP hkey
      have hparent := Rules.spelled_of_key hok hP hparent
      exact ⟨(hkey.place hok hparent).numbered hok hn, (hkey.beginsLarge_enumName hparent).numbered hn⟩
  have hnames := hd.resolve_preserves hstable (fun _ hn => absurd hn List.not_mem_nil) h
  exact fun n hn => hnames n (List.mem_append_left _ hn)

end

/-! ### Identifiers -/

/-- The name is an identifier: letters, digits, '_' and '$', and no digit at its beginning. -/
structure TypeScript.IsIdentifier (n : String) : Prop where
  chars : ∀ c ∈ n.toList, c.isAlphanum = true ∨ c = '_' ∨ c = '$'
  begins : ∃ c ∈ n.toList.head?, c.isDigit = false

/-- The characters that names of components may have. -/
def Text.isNameChar (c : Char) : Bool := c.isAlphanum || c == '.' || c == '-' || c == '_'

/-- Those of them that identifiers may have. -/
def Text.isPlainChar (c : Char) : Bool := c.isAlphanum || c == '_'

open TypeScript

section

variable {n : String}

theorem Text.not_isDigit_of_isUpper {c : Char} (h : c.isUpper = true) : c.isDigit = false := by
  rw [Bool.eq_false_iff]
  intro hdigit
  simp only [Char.isDigit, Char.isUpper, Bool.and_eq_true, decide_eq_true_eq, ge_iff_le,
    UInt32.le_iff_toNat_le] at hdigit h
  exact absurd (h.1.trans hdigit.2) (by decide)

theorem Text.Spelled.isIdentifier_iff (h : Spelled isNameChar n) (hlarge : BeginsLarge n) :
    IsIdentifier n ↔ '.' ∉ n.toList ∧ '-' ∉ n.toList := by
  refine ⟨fun hn => ⟨fun hmem => ?_, fun hmem => ?_⟩, fun ⟨hdot, hdash⟩ => ⟨fun c hc => ?_, ?_⟩⟩
  · simpa using hn.chars _ hmem
  · simpa using hn.chars _ hmem
  · have hname := h.2 c hc
    have hne : c ≠ '.' ∧ c ≠ '-' := ⟨fun heq => hdot (heq ▸ hc), fun heq => hdash (heq ▸ hc)⟩
    simp only [isNameChar, Bool.or_eq_true, beq_iff_eq] at hname
    tauto
  · obtain ⟨c, hc, hupper⟩ := hlarge
    exact ⟨c, hc, not_isDigit_of_isUpper hupper⟩

/-- Of the words for primitive types only one begins with a capital. -/
theorem Text.BeginsLarge.eq_file (h : BeginsLarge n) {p : Primitive} (hn : n = primitiveText p) :
    p = .file := by
  subst hn
  obtain ⟨c, hc, hupper⟩ := h
  cases p with
  | file => rfl
  | _ =>
    obtain rfl := Option.some.inj hc
    revert hupper
    decide

end

section

variable {ok : Char → Bool} {P : String → Prop} {key parent name wanted : String} {d : Document}
  {R : Resolution}

/-- A name that does not end in a digit is no numbered variant. -/
theorem Registry.IsNumbered.eq_of_last (h : IsNumbered wanted name) {c : Char}
    (hlast : c ∈ name.toList.getLast?) (hc : c.isDigit = false) : name = wanted := by
  obtain ⟨k, -, rfl⟩ := h
  rw [numbered] at hlast ⊢
  split_ifs at hlast ⊢ with hk
  · rfl
  · have hne : (toString k).toList ≠ [] := by
      rw [Nat.toString_eq_ofList_toDigits, String.toList_ofList]
      exact Nat.toDigits_ne_nil
    rw [String.toList_append, List.getLast?_append_of_ne_nil _ hne] at hlast
    have hdigit := isDigit_of_mem_toString (List.mem_of_getLast? hlast)
    simp [hc] at hdigit

theorem Text.Spelled.eq_of_capitalCase_file (h : Spelled ok key) (hkey : capitalCase key = "File") :
    key = "file" ∨ key = "File" := by
  obtain ⟨c, cs, hs, -, hcapital⟩ := h.toList_capitalCase
  rw [hkey] at hcapital
  obtain ⟨hc, rfl⟩ := List.cons.inj hcapital
  by_cases hlower : c.isLower = true
  · have hsmall : c = 'f' := by
      rw [← Char.toLower_eq_of_not_isUpper (Char.not_isUpper_of_isLower hlower),
        ← Char.toLower_toUpper_eq_toLower, ← hc]
      rfl
    exact .inl (String.toList_inj.mp (by rw [hs, hsmall]; rfl))
  · rw [Char.toUpper_eq_of_not_isLower hlower] at hc
    exact .inr (String.toList_inj.mp (by rw [hs, ← hc]; rfl))

/-- A name in which a second capital begins is not the word for files. -/
theorem Text.BeginsLarge.append_ne_file {s t : String} (hs : BeginsLarge s) (ht : BeginsLarge t) :
    s ++ t ≠ "File" := by
  intro h
  obtain ⟨c, hc, -⟩ := hs
  obtain ⟨x, hx, hupper⟩ := ht
  obtain ⟨cs, hcs⟩ := List.head?_eq_some_iff.mp hc
  obtain ⟨xs, hxs⟩ := List.head?_eq_some_iff.mp hx
  have hlist : c :: cs ++ x :: xs = ['F', 'i', 'l', 'e'] := by
    rw [← hcs, ← hxs, ← String.toList_append, h]
    rfl
  have hmem : x ∈ ['i', 'l', 'e'] := by
    rw [← (List.cons.inj hlist).2]
    simp
  simp only [List.mem_cons, List.not_mem_nil, or_false] at hmem
  rcases hmem with rfl | rfl | rfl <;> cases hupper

section

variable (hP : ∀ s, P s → Spelled ok s ∧ s ≠ "file" ∧ s ≠ "File")

include hP

theorem Rules.ne_file_of_component (hkey : P key)
    (hname : Registry.IsNumbered (capitalCase key) name) : name ≠ "File" := by
  rintro rfl
  obtain ⟨hspelled, hsmall, hlarge⟩ := hP key hkey
  rcases hspelled.eq_of_capitalCase_file (hname.eq_of_last (c := 'e') rfl rfl).symm with h | h
  · exact hsmall h
  · exact hlarge h

theorem Rules.ne_file_of_key (h : (Rules.names P).Key key) : key ≠ "file" ∧ key ≠ "File" := by
  have hlong {suffix id : String} (hsuffix : 4 < suffix.length) :
      id ++ suffix ≠ "file" ∧ id ++ suffix ≠ "File" := by
    refine ⟨fun h => ?_, fun h => ?_⟩
    all_goals
      have hlength := congrArg String.length h
      rw [String.length_append] at hlength
      have hfour : id.length + suffix.length = 4 := hlength
      omega
  cases h with
  | property hnames hn => exact (hP key (hnames key hn)).2
  | parameter h => exact (hP key h).2
  | request h => exact hlong (by decide)
  | response h => exact hlong (by decide)
  | @component c _ hc hn =>
    refine ⟨?_, ne_file_of_component hP hc hn⟩
    rintro rfl
    obtain ⟨x, hx, hupper⟩ := (hP c hc).1.beginsLarge_capitalCase.numbered hn
    obtain rfl := Option.some.inj hx
    cases hupper

theorem Document.names_ne_file (hok : ∀ c : Char, c.isAlphanum = true → ok c = true)
    (hd : d.Obeys (.names P)) (h : d.resolve = .ok R) : "File" ∉ R.definitions.names := by
  have hstable : (Rules.names P).Stable (Registry.NamesHave (· ≠ "File")) := by
    refine Rules.namesHave_stable (fun c n hc hn => Rules.ne_file_of_component hP hc hn) ?_
    rintro key parent n hkey hparent hn rfl
    have hspelled {k : String} (hk : (Rules.names P).Key k) : Spelled ok k :=
      Rules.spelled_of_key hok (fun s hs => (hP s hs).1) hk
    -- The word does not end in a digit, so the enum is called what its place is called.
    have hplace := (hn.eq_of_last (c := 'e') rfl rfl).symm
    rw [Schema.enumName] at hplace
    split_ifs at hplace
    · obtain ⟨hsmall, hlarge⟩ := Rules.ne_file_of_key hP hkey
      rcases (hspelled hkey).eq_of_capitalCase_file hplace with h | h
      · exact hsmall h
      · exact hlarge h
    · exact (hspelled hparent).beginsLarge_capitalCase.append_ne_file
        (hspelled hkey).beginsLarge_capitalCase hplace
  have hnames := hd.resolve_preserves hstable (fun _ hn => absurd hn List.not_mem_nil) h
  exact fun hn => hnames "File" (List.mem_append_left _ hn) rfl

end

end

/-- In a description with names of letters, digits, '.', '-' and '_' that begin with a letter, the name of
a shape is an identifier exactly if it has no '.' and no '-', and is the word for a primitive type only if
it is the one for files. So all of them are identifiers and none is such a word if no name of the
description has a '.' or a '-', and no component, property or parameter is a file by its name. -/
theorem Document.resolve_typeNames {d : Document} {R : Resolution} (h : d.resolve = .ok R) :
    (d.Obeys (.names (Spelled isNameChar)) → ∀ n ∈ R.definitions.names,
      (IsIdentifier n ↔ '.' ∉ n.toList ∧ '-' ∉ n.toList) ∧
        ∀ p : Primitive, n = primitiveText p → p = .file) ∧
    (d.Obeys (.names fun s => Spelled isPlainChar s ∧ s ≠ "file" ∧ s ≠ "File") →
      ∀ n ∈ R.definitions.names, IsIdentifier n ∧ ∀ p : Primitive, n ≠ primitiveText p) := by
  have hname (c : Char) (hc : c.isAlphanum = true) : isNameChar c = true := by simp [isNameChar, hc]
  have hplain (c : Char) (hc : c.isAlphanum = true) : isPlainChar c = true := by simp [isPlainChar, hc]
  refine ⟨fun hd n hn => ?_, fun hd n hn => ?_⟩
  · obtain ⟨hspelled, hlarge⟩ := names_spelled hname (fun s hs => hs) hd h n hn
    exact ⟨hspelled.isIdentifier_iff hlarge, fun p => hlarge.eq_file⟩
  · obtain ⟨hspelled, hlarge⟩ := names_spelled hplain (fun s hs => hs.1) hd h n hn
    refine ⟨⟨fun c hc => ?_, ?_⟩, fun p hp => ?_⟩
    · have hchar := hspelled.2 c hc
      simp only [isPlainChar, Bool.or_eq_true, beq_iff_eq] at hchar
      exact hchar.imp_right .inl
    · obtain ⟨c, hc, hupper⟩ := hlarge
      exact ⟨c, hc, not_isDigit_of_isUpper hupper⟩
    · obtain rfl := hlarge.eq_file hp
      obtain rfl : n = "File" := hp
      exact names_ne_file (fun s hs => hs) hplain hd h hn

theorem treeDocument_obeys {P : String → Prop} (htree : P "tree") (hkind : P "kind")
    (hchildren : P "children") : treeDocument.Obeys (.names P) where
  components := by
    constructor <;> simp [treeDocument, Rules.names, Schema.ObeysOf, Schema.Obeys, Schema.ObeyFields,
      Schema.ObeysItems, Schema.ObeysAdditional, Schema.ObeyAll, htree, hkind, hchildren]
  sites := by
    intro site hsite
    simp [treeDocument, Document.sites, PathItem.operations, Method.all] at hsite
    subst hsite
    constructor <;> simp [Rules.names, Site.operationId, RefOr.All, Body.Obeys, Schema.ObeysItems,
      Schema.ObeysOf, htree]

theorem resolve_typeNames_tree :
    treeDocument.Obeys (.names (Spelled isNameChar)) ∧
    ∃ R, treeDocument.resolve = .ok R ∧ R.definitions.names = ["Tree", "TreeKind"] ∧
      (∀ n ∈ R.definitions.names, IsIdentifier n ↔ '.' ∉ n.toList ∧ '-' ∉ n.toList) ∧
      ∀ n ∈ R.definitions.names, IsIdentifier n ∧ ∀ p : Primitive, n ≠ primitiveText p := by
  have hnames : treeDocument.resolve.toOption.map (·.definitions.names) =
      some ["Tree", "TreeKind"] := by decide +kernel
  obtain ⟨R, h, hnames⟩ := Document.resolve_of_map hnames
  have hobeys : treeDocument.Obeys (.names (Spelled isNameChar)) :=
    treeDocument_obeys (by simp [Spelled, isNameChar]) (by simp [Spelled, isNameChar])
      (by simp [Spelled, isNameChar])
  have hplain : treeDocument.Obeys (.names fun s => Spelled isPlainChar s ∧ s ≠ "file" ∧ s ≠ "File") :=
    treeDocument_obeys (by simp [Spelled, isPlainChar]) (by simp [Spelled, isPlainChar])
      (by simp [Spelled, isPlainChar])
  have htypes := Document.resolve_typeNames h
  exact ⟨hobeys, R, h, hnames, fun n hn => (htypes.1 hobeys n hn).1, htypes.2 hplain⟩

/-- An operation that answers a pet, and a component that is a file by its name. -/
def petDocument : Document where
  paths := [("/pets", {
    operation? := fun m => if m = .get then some {
      operationId := some "pets"
      responses := [("200", .inline ⟨[("application/json",
        some (.ref "#/components/schemas/my-pet"))]⟩)] }
      else none })]
  components.schemas := [
    ("my-pet", .inline { properties := [("photo", .ref "#/components/schemas/file")] }),
    ("file", .inline { properties := [("id", .inline { type := some (.single "string") })] })]

theorem petDocument_names :
    petDocument.Obeys (.names (Spelled isNameChar)) ∧
    ∃ R, petDocument.resolve = .ok R ∧ R.definitions.names = ["File", "My-pet"] ∧
      ¬ IsIdentifier "My-pet" ∧ primitiveText .file = "File" := by
  constructor
  · constructor
    · constructor <;> simp [petDocument, Rules.names, Schema.ObeysOf, Schema.Obeys, Schema.ObeyFields,
        Schema.ObeysItems, Schema.ObeysAdditional, Schema.ObeyAll, Spelled, isNameChar]
    · intro site hsite
      simp [petDocument, Document.sites, PathItem.operations, Method.all] at hsite
      subst hsite
      constructor <;> simp [Rules.names, Site.operationId, RefOr.All, Body.Obeys, Schema.ObeysItems,
        Schema.ObeysOf, Spelled, isNameChar]
  · have hnames : petDocument.resolve.toOption.map (·.definitions.names) =
        some ["File", "My-pet"] := by decide +kernel
    obtain ⟨R, h, hnames⟩ := Document.resolve_of_map hnames
    refine ⟨R, h, hnames, fun hpet => ?_, rfl⟩
    simpa using hpet.chars '-' (by simp)

end ApiClient

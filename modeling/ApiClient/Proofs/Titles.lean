import ApiClient.Proofs.Letters
import ApiClient.Proofs.Upkeep

/-! The names of shapes. Every name that a pass gives is made from a component or from the place of an
enum, and is written in capital case. -/

namespace ApiClient

namespace Registry

/-- What every step of a pass keeps of the registry. -/
structure Stable (J : Registry → Prop) : Prop where
  enum : ∀ g key parent vs, J g → J (g.register (Schema.enumName key parent) (.enum vs)).2
  promise : ∀ g component, J g → J (g.reserve (capitalCase component)).2
  fill : ∀ g component name d, IsNumbered (capitalCase component) name → J g → J (g.fill name d)

end Registry

/-! ### A description without rules -/

namespace Schema

mutual

theorem obeys_free : (s : Schema) → s.Obeys {}
  | ⟨_, _, _, properties, _, items, additional, allOf, oneOf, anyOf, _⟩ => by
    rw [Obeys]
    exact ⟨fun _ _ => trivial, trivial, obeyFields_free properties, obeysItems_free items,
      obeysAdditional_free additional, obeyAll_free allOf, obeyAll_free oneOf, obeyAll_free anyOf⟩

theorem obeysOf_free : (s : RefOr Schema) → ObeysOf {} s
  | .ref _ => by rw [ObeysOf]; exact trivial
  | .inline s => by rw [ObeysOf]; exact obeys_free s

theorem obeysItems_free : (s : Option (RefOr Schema)) → ObeysItems {} s
  | none => by rw [ObeysItems]; exact trivial
  | some s => by rw [ObeysItems]; exact obeysOf_free s

theorem obeysAdditional_free : (a : Option (Additional (RefOr Schema))) → ObeysAdditional {} a
  | some (.values s) => by rw [ObeysAdditional]; exact obeysOf_free s
  | some (.allowed _) => by rw [ObeysAdditional]; exact trivial
  | none => by rw [ObeysAdditional]; exact trivial

theorem obeyAll_free : (ss : List (RefOr Schema)) → ObeyAll {} ss
  | [] => by rw [ObeyAll]; exact trivial
  | s :: ss => by rw [ObeyAll]; exact ⟨obeysOf_free s, obeyAll_free ss⟩

theorem obeyFields_free : (fs : List (String × RefOr Schema)) → ObeyFields {} fs
  | [] => by rw [ObeyFields]; exact trivial
  | (_, s) :: fs => by rw [ObeyFields]; exact ⟨obeysOf_free s, obeyFields_free fs⟩

end

end Schema

theorem Document.obeys_free (d : Document) : d.Obeys {} := by
  have hparameter (p : Parameter) : p.Obeys {} := ⟨trivial, Schema.obeysItems_free p.schema⟩
  have hbody (b : Body) : b.Obeys {} := fun m _ => Schema.obeysItems_free m.2
  exact {
    components := ⟨fun _ _ => trivial, fun e _ => Schema.obeysOf_free e.2,
      fun _ _ p _ => hparameter p, fun _ _ b _ => hbody b, fun _ _ b _ => hbody b⟩
    sites := fun _ _ => ⟨trivial, fun _ _ p _ => hparameter p, fun _ _ b _ => hbody b,
      fun _ _ b _ => hbody b⟩ }

/-- What every step keeps of the registry is kept by a pass over a description, also by one that
fails. -/
theorem Document.endpoints_preserves {J : Registry → Prop} (hJ : Registry.Stable J) (d : Document)
    {g : Registry} (hg : J g) : J (d.endpoints g).2 :=
  d.obeys_free.endpoints_preserves
    { enum := fun g key parent vs _ _ _ => hJ.enum g key parent vs
      promise := fun g c _ => hJ.promise g c
      fill := fun g c name D _ hname _ => hJ.fill g c name D hname } hg

/-! ### Titles -/

theorem Text.isDigit_of_mem_toString {c : Char} {k : Nat} (h : c ∈ (toString k).toList) :
    c.isDigit = true := by
  rw [Nat.toString_eq_ofList_toDigits, String.toList_ofList] at h
  exact Nat.isDigit_of_mem_toDigits (by decide) (by decide) h

/-- The name is made from the name of a component or from the place of an enum. -/
def Title (name : String) : Prop :=
  (∃ component, Registry.IsNumbered (capitalCase component) name) ∨
    ∃ key parent, Registry.IsNumbered (Schema.enumName key parent) name

/-- All names that hold a shape or are promised one are titles. -/
def Registry.Titled (g : Registry) : Prop := ∀ name ∈ g.names ++ g.reserved, Title name

namespace Registry

theorem titled_stable : Stable Titled := by
  have hstable : Rules.Stable {} (NamesHave Title) :=
    Rules.namesHave_stable (fun c _ _ hn => .inl ⟨c, hn⟩) fun key parent _ _ _ hn => .inr ⟨key, parent, hn⟩
  exact {
    enum := fun g key parent vs => hstable.enum g key parent vs (.parameter trivial)
      (.parameter trivial) trivial
    promise := fun g c => hstable.promise g c trivial
    fill := fun g c name D hname => hstable.fill g c name D trivial hname fun _ _ => trivial }

end Registry

/-- The name begins with a small letter of ASCII. -/
def Text.BeginsSmall (s : String) : Prop := ∃ c ∈ s.toList.head?, c.isLower = true

namespace Title

open Text (BeginsSmall)

theorem not_beginsSmall_append {s t : String} (hs : ¬ BeginsSmall s) (ht : ¬ BeginsSmall t) :
    ¬ BeginsSmall (s ++ t) := by
  rw [BeginsSmall, String.toList_append, List.head?_append]
  cases hhead : s.toList.head? with
  | none => exact ht
  | some c =>
    rw [BeginsSmall, hhead] at hs
    exact hs

theorem not_beginsSmall_capitalCase (word : String) : ¬ BeginsSmall (capitalCase word) := by
  rw [capitalCase]
  split
  · simp [BeginsSmall]
  · rename_i c cs hword
    rintro ⟨x, hx, hlower⟩
    rw [String.toList_ofList, List.head?_append_of_ne_nil _ (Text.upper_ne_nil c)] at hx
    exact absurd (Text.not_isLower_of_mem_upper (List.mem_of_mem_head? hx)) (by simp [hlower])

theorem not_beginsSmall_enumName (key parent : String) :
    ¬ BeginsSmall (Schema.enumName key parent) := by
  rw [Schema.enumName]
  split_ifs
  · exact not_beginsSmall_capitalCase key
  · exact not_beginsSmall_append (not_beginsSmall_capitalCase parent)
      (not_beginsSmall_capitalCase key)

theorem not_beginsSmall_toString (k : Nat) : ¬ BeginsSmall (toString k) := by
  rintro ⟨c, hc, hlower⟩
  have hdigit := Text.isDigit_of_mem_toString (List.mem_of_mem_head? hc)
  simp only [Char.isDigit, Char.isLower, Bool.and_eq_true, decide_eq_true_eq, ge_iff_le,
    UInt32.le_iff_toNat_le] at hdigit hlower
  exact absurd (hlower.1.trans hdigit.2) (by decide)

theorem not_beginsSmall_numbered {wanted name : String} (h : ¬ BeginsSmall wanted)
    (hname : Registry.IsNumbered wanted name) : ¬ BeginsSmall name := by
  obtain ⟨k, -, rfl⟩ := hname
  rw [Registry.numbered]
  split_ifs
  · exact h
  · exact not_beginsSmall_append h (not_beginsSmall_toString k)

/-- The names of shapes do not begin with a small letter of ASCII. -/
theorem not_beginsSmall {name : String} (h : Title name) : ¬ BeginsSmall name := by
  rcases h with ⟨component, hname⟩ | ⟨key, parent, hname⟩
  · exact not_beginsSmall_numbered (not_beginsSmall_capitalCase component) hname
  · exact not_beginsSmall_numbered (not_beginsSmall_enumName key parent) hname

end Title

end ApiClient

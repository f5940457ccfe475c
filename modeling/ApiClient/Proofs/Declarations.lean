import ApiClient.Proofs.Registry
import ApiClient.TypeScript.Request
import Mathlib

/-! Where a module mentions a named type and where it declares it. The two agree on whether the name
stands for a type or for the object of an enum's values. -/

namespace ApiClient

/-- The name stands somewhere in the type. -/
inductive TypeExpr.Mentions (n : String) : TypeExpr → Prop
  | named : Mentions n (.named n)
  | array {t : TypeExpr} : t.Mentions n → Mentions n (.array t)
  | map {t : TypeExpr} : t.Mentions n → Mentions n (.map t)
  | object {fs : Fields} {k : FieldKey} {t : TypeExpr} :
    (k, t) ∈ fs → t.Mentions n → Mentions n (.object fs)
  | union {ts : List TypeExpr} {t : TypeExpr} : t ∈ ts → t.Mentions n → Mentions n (.union ts)
  | intersection {ts : List TypeExpr} {t : TypeExpr} :
    t ∈ ts → t.Mentions n → Mentions n (.intersection ts)

inductive Definition.Mentions (n : String) : Definition → Prop
  | object {fs : Fields} {k : FieldKey} {t : TypeExpr} :
    (k, t) ∈ fs → t.Mentions n → Mentions n (.object fs)
  | alias {t : TypeExpr} : t.Mentions n → Mentions n (.alias t)

/-- The first text stands in the second one. -/
def Text.Within (s t : String) : Prop := s.toList <:+: t.toList

namespace Text.Within

variable {s t u : String}

theorem refl (s : String) : Within s s := List.infix_rfl

theorem trans (h₁ : Within s t) (h₂ : Within t u) : Within s u := List.IsInfix.trans h₁ h₂

theorem append_left (h : Within s t) (before : String) : Within s (before ++ t) := by
  rw [Within, String.toList_append]
  exact List.infix_append_of_infix_right h

theorem append_right (h : Within s t) (after : String) : Within s (t ++ after) := by
  rw [Within, String.toList_append]
  exact List.infix_append_of_infix_left h

theorem join {ts : List String} (h : t ∈ ts) : Within t (String.join ts) := by
  rw [Within, String.toList_join]
  obtain ⟨before, after, rfl⟩ := List.append_of_mem h
  exact ⟨before.flatMap String.toList, after.flatMap String.toList, by simp⟩

theorem intercalate {ts : List String} (h : t ∈ ts) (mark : String) :
    Within t (mark.intercalate ts) := by
  induction ts with
  | nil => cases h
  | cons u ts ih =>
    by_cases hts : ts = []
    · subst hts
      rw [List.mem_singleton.mp h, String.intercalate_singleton]
      exact .refl u
    · rw [String.intercalate_cons_of_ne_nil hts]
      rcases List.mem_cons.mp h with rfl | h
      · exact ((Within.refl t).append_right mark).append_right _
      · exact (ih h).append_left _

end Text.Within

namespace TypeScript

open Text

variable {g : Registry} {n : String}

theorem within_parenthesised {s t : String} (h : Within s t) (parens : Bool) :
    Within s (parenthesised parens t) := by
  cases parens with
  | true => exact (h.append_left "(").append_right ")"
  | false => exact h

theorem memberText_mem {ts : List TypeExpr} {t : TypeExpr} (h : t ∈ ts) :
    parenthesised (needsParens g t) (typeText g t) ∈ memberTexts g ts := by
  induction ts with
  | nil => cases h
  | cons u ts ih =>
    rcases List.mem_cons.mp h with rfl | h
    · exact List.mem_cons_self
    · exact List.mem_cons_of_mem _ (ih h)

theorem fieldText_mem {fs : Fields} {k : FieldKey} {t : TypeExpr} (h : (k, t) ∈ fs) :
    propertyText k.name k.optional (typeText g t) ∈ fieldTexts g fs := by
  induction fs with
  | nil => cases h
  | cons f fs ih =>
    rcases List.mem_cons.mp h with rfl | h
    · exact List.mem_cons_self
    · exact List.mem_cons_of_mem _ (ih h)

theorem within_propertyText {s type : String} (h : Within s type) (name : String) (optional : Bool) :
    Within s (propertyText name optional type) :=
  (h.append_left _).append_right ";"

theorem within_inlineObject {s : String} {properties : List String} {p : String}
    (hp : p ∈ properties) (h : Within s p) : Within s (inlineObject properties) := by
  have hne : properties.isEmpty = false := by
    cases properties with
    | nil => cases hp
    | cons _ _ => rfl
  rw [inlineObject, hne, if_neg Bool.false_ne_true]
  have hjoin : Within s (String.join (properties.map (· ++ " "))) :=
    (h.append_right " ").trans (.join (List.mem_map_of_mem hp))
  exact (hjoin.append_left _).append_right _

theorem typeText_named (g : Registry) (n : String) : typeText g (.named n) = namedText g n := rfl

/-- Wherever a type mentions a name, it is written in the one way in which the name is written. -/
theorem mention_within {t : TypeExpr} (h : t.Mentions n) :
    Within (typeText g (.named n)) (typeText g t) := by
  induction h with
  | named => exact .refl _
  | array _ ih => exact (within_parenthesised ih _).append_right "[]"
  | map _ ih => exact (ih.append_left _).append_right " \x7d"
  | @object fs k t hmem _ ih =>
    show Within _ (inlineObject (fieldTexts g fs))
    exact within_inlineObject (fieldText_mem hmem) (within_propertyText ih _ _)
  | @union ts t hmem _ ih =>
    show Within _ (" | ".intercalate (memberTexts g ts))
    exact (within_parenthesised ih _).trans (.intercalate (memberText_mem hmem) _)
  | @intersection ts t hmem _ ih =>
    show Within _ (" & ".intercalate (memberTexts g ts))
    exact (within_parenthesised ih _).trans (.intercalate (memberText_mem hmem) _)

theorem mention_within_definition {d : Definition} (h : d.Mentions n) (name : String) :
    Within (typeText g (.named n)) (definitionText g name d) := by
  rcases h with @⟨fs, k, t, hmem, ht⟩ | @⟨t, ht⟩
  · have hfield := within_propertyText (mention_within (g := g) ht) k.name k.optional
    have hline := (hfield.append_left "  ").append_right "\n"
    have hlines := List.mem_map_of_mem (f := fun p => "  " ++ p ++ "\n")
      (fieldText_mem (g := g) hmem)
    show Within _ ("export interface " ++ name ++ " \x7b\n" ++
      String.join ((fieldTexts g fs).map fun p => "  " ++ p ++ "\n") ++ "\x7d")
    exact ((hline.trans (.join hlines)).append_left _).append_right _
  · show Within _ ("export type " ++ name ++ " = " ++ typeText g t ++ ";")
    exact ((mention_within ht).append_left _).append_right _

/-! ### The parts of a module -/

variable {c : Config} {r : Resolution}

theorem operation_within {op : Endpoint} (h : op ∈ r.operations) :
    Within (operationText c r.definitions op) (moduleText c r) := by
  refine Within.append_right (.intercalate ?_ _) "\n"
  exact List.mem_append_left _ (List.mem_append_right _ (List.mem_map_of_mem h))

theorem declaration_within {d : Definition} (h : (n, d) ∈ r.definitions.entries) :
    Within (definitionText r.definitions n d) (moduleText c r) := by
  refine Within.append_right (.intercalate ?_ _) "\n"
  exact List.mem_append_right _ (List.mem_map_of_mem h)

theorem client_within {op : Endpoint} {s : String}
    (h : Within s (clientName c op.method.text (typeText g op.responseType))) :
    Within s (operationText c g op) := by
  rw [operationText]
  split_ifs
  · iterate 5 apply Within.append_right
    exact h.append_left _
  · iterate 3 apply Within.append_right
    exact h.append_left _

theorem response_within (op : Endpoint) :
    Within (typeText g op.responseType) (operationText c g op) := by
  refine client_within ?_
  rw [clientName]
  split_ifs
  · iterate 3 apply Within.append_right
    exact (Within.refl _).append_left _
  · exact ((Within.refl _).append_left _).append_right _

theorem arguments_within (op : Endpoint) :
    Within (requestArguments g op) (operationText c g op) := by
  rw [operationText]
  split_ifs
  · iterate 3 apply Within.append_right
    exact (Within.refl _).append_left _
  · iterate 5 apply Within.append_right
    exact (Within.refl _).append_left _

/-- Without arguments their types are not written. -/
theorem request_within {op : Endpoint} {f : FieldKey × TypeExpr} (hf : f ∈ op.requestType)
    (hnames : argumentNames op ≠ []) : Within (typeText g f.2) (requestArguments g op) := by
  have hmem : propertyText (argumentName f.1.name) f.1.optional (typeText g f.2) ∈
      argumentTypes g op := List.mem_map_of_mem hf
  have hne : (argumentTypes g op).isEmpty = false := by
    rw [List.isEmpty_eq_false_iff]
    exact List.ne_nil_of_mem hmem
  have htype := (within_propertyText (.refl (typeText g f.2)) (argumentName f.1.name)
    f.1.optional).trans (.intercalate hmem " ")
  rw [requestArguments]
  split
  · rename_i h
    exact absurd h hnames
  · dsimp only
    rw [hne, if_neg Bool.false_ne_true]
    exact ((htype.append_left _).append_right _).append_left _

/-! ### How a name is declared and how it is written -/

/-- A declaration of the name that starts with the given word. -/
def Declares (g : Registry) (word name : String) : Prop :=
  ∃ d rest, (name, d) ∈ g.entries ∧
    definitionText g name d = "export " ++ word ++ " " ++ name ++ " " ++ rest

def word : Definition → String
  | .object _ => "interface"
  | .enum _ => "const"
  | .alias _ => "type"

theorem word_mem (d : Definition) : word d ∈ ["const", "interface", "type"] := by
  cases d <;> simp [word]

/-- Every declaration starts with its word and its name. -/
theorem definitionText_word (g : Registry) (name : String) (d : Definition) :
    ∃ rest, definitionText g name d = "export " ++ word d ++ " " ++ name ++ " " ++ rest := by
  have hobject : " \x7b\n" = " " ++ "\x7b\n" := rfl
  have henum : " = \x7b\n" = " " ++ "= \x7b\n" := rfl
  have halias : " = " = " " ++ "= " := rfl
  rcases d with fs | vs | t
  · let properties := String.join ((fieldTexts g fs).map fun p => "  " ++ p ++ "\n")
    refine ⟨"\x7b\n" ++ properties ++ "\x7d", ?_⟩
    show "export interface " ++ name ++ " \x7b\n" ++ properties ++ "\x7d" = _
    rw [hobject, ← String.append_assoc, ← String.append_assoc, ← String.append_assoc]
    rfl
  · let values := String.join (vs.map fun v => "  " ++ enumKey v ++ ": " ++ v.text ++ ",\n")
    refine ⟨"= \x7b\n" ++ values ++ "\x7d as const;", ?_⟩
    show "export const " ++ name ++ " = \x7b\n" ++ values ++ "\x7d as const;" = _
    rw [henum, ← String.append_assoc, ← String.append_assoc, ← String.append_assoc]
    rfl
  · refine ⟨"= " ++ typeText g t ++ ";", ?_⟩
    show "export type " ++ name ++ " = " ++ typeText g t ++ ";" = _
    rw [halias, ← String.append_assoc, ← String.append_assoc, ← String.append_assoc]
    rfl

theorem word_inj {d e : Definition} {name r₁ r₂ : String}
    (h : "export " ++ word d ++ " " ++ name ++ " " ++ r₁ =
      "export " ++ word e ++ " " ++ name ++ " " ++ r₂) :
    word d = word e := by
  have hchars := congrArg (fun s => (s.toList.drop 7).head?) h
  rcases d with _ | _ | _ <;> rcases e with _ | _ | _ <;> first
    | rfl
    | simp [word] at hchars

theorem declares_iff (hg : g.Ordered) {d : Definition} (hd : g.get? n = some d) {w : Definition} :
    Declares g (word w) n ↔ word d = word w := by
  constructor
  · rintro ⟨e, rest, hmem, htext⟩
    obtain rfl : d = e := Option.some.inj (hd.symm.trans (hg.get?_of_mem hmem))
    obtain ⟨rest', htext'⟩ := definitionText_word g n d
    exact word_inj (htext'.symm.trans htext)
  · intro h
    obtain ⟨rest, htext⟩ := definitionText_word g n d
    exact ⟨d, rest, Registry.mem_of_get? hd, h ▸ htext⟩

/-- A name is written as an index exactly if it is declared as a constant, and on its own exactly if
it is declared as a type. -/
theorem use_agrees (hg : g.Ordered) {d : Definition} (hd : g.get? n = some d) :
    ((typeText g (.named n) = "keyof typeof " ++ n ∨
        typeText g (.named n) = "(typeof " ++ n ++ ")[keyof typeof " ++ n ++ "]") ↔ Declares g "const" n) ∧
      (typeText g (.named n) = n ↔ Declares g "interface" n ∨ Declares g "type" n) := by
  have hconst : Declares g "const" n ↔ word d = "const" := declares_iff hg hd (w := .enum [])
  have hinterface : Declares g "interface" n ↔ word d = "interface" :=
    declares_iff hg hd (w := .object [])
  have htype : Declares g "type" n ↔ word d = "type" := declares_iff hg hd (w := .alias .unknown)
  have hkeys : "keyof typeof " ++ n ≠ n := fun h => by
    have hlength := congrArg String.length h
    simp at hlength
  have hvalues : "(typeof " ++ n ++ ")[keyof typeof " ++ n ++ "]" ≠ n := fun h => by
    have hlength := congrArg String.length h
    have hlast : "]".length = 1 := rfl
    simp only [String.length_append, hlast] at hlength
    omega
  rw [hconst, hinterface, htype, typeText_named]
  rcases d with fs | vs | t
  · simp [namedText, enumValues?, hd, word, hkeys.symm, hvalues.symm]
  · by_cases hstr : vs.all Json.isStr
    · simp [namedText, enumValues?, hd, word, hstr, hkeys]
    · simp [namedText, enumValues?, hd, word, hstr, hvalues]
  · simp [namedText, enumValues?, hd, word, hkeys.symm, hvalues.symm]

end TypeScript

end ApiClient

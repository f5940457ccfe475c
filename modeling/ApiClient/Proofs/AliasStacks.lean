import ApiClient.Proofs.Termination

/-! The chain of aliases as a stack. At each call of a run that starts without aliases it holds the
references that are being worked out one directly inside of the other, and no others. -/

namespace ApiClient

namespace Resolver

open Reference

variable {schemas : List (String × RefOr Schema)} {x y : Call × Pass} {stack : List (Call × Pass)}

/-- The calls that are under way in a run that has started without aliases, the innermost first. -/
inductive Underway (schemas : List (String × RefOr Schema)) : List (Call × Pass) → Prop
  | start (call : Call) {p : Pass} : p.aliasing = [] → Underway schemas [(call, p)]
  | call {x y : Call × Pass} {stack : List (Call × Pass)} :
    Underway schemas (x :: stack) → Calls schemas x y → Underway schemas (y :: x :: stack)

/-- The references that are being worked out without a schema in between, down from the innermost call. -/
def aliasRun : List (Call × Pass) → List String
  | (.reference r, _) :: stack => r :: aliasRun stack
  | (.schema _ _ _, _) :: _ => []
  | [] => []

/-- The innermost call starts with the chain of aliases that it should have: if it is for a reference, the
components that are being worked out around it lead one to the next and to it. -/
def Exact (schemas : List (String × RefOr Schema)) : List (Call × Pass) → Prop
  | (.reference r, p) :: stack =>
    p.aliasing = aliasRun stack ∧ (r :: aliasRun stack).IsChain fun b a => next? schemas a = some b
  | (.schema _ _ _, p) :: _ => p.aliasing = []
  | [] => True

theorem Frame.exact (h : Frame schemas x y) (hx : Exact schemas (x :: stack)) :
    Exact schemas (y :: x :: stack) := by
  cases h with
  | place => exact ⟨hx, .singleton _⟩
  | inside hv hq haliasing => exact haliasing.trans hx
  | next hn hpoints =>
    exact ⟨congrArg (List.cons _) hx.1, .cons_cons (next?_eq_some_iff.mpr ⟨_, hpoints⟩) hx.2⟩
  | content hn hpoints hv hq haliasing => exact haliasing

theorem Underway.exact (h : Underway schemas stack) : Exact schemas stack := by
  induction h with
  | start call hp =>
    cases call with
    | reference r => exact ⟨hp, .singleton r⟩
    | schema s key parent => exact hp
  | call _ hxy ih => exact hxy.frame.exact ih

/-- What a resolver would do at a call with another chain of aliases never comes to bear. -/
theorem eq_run_of_exact {self : List (Call × Pass) → Call → Resolver TypeExpr}
    (h : ∀ x stack, Exact schemas (x :: stack) →
      self stack x.1 x.2 = x.1.step schemas (self (x :: stack)) x.2)
    (hx : Exact schemas (x :: stack)) : self stack x.1 x.2 = x.1.run schemas x.2 := by
  -- Along the calls, as each weighs less than the one that makes it and is made on top of it.
  induction x using (weight_wellFounded schemas).induction generalizing stack with
  | _ x ih =>
    rw [h x stack hx]
    exact step_eq_run x fun y hy => ih y hy.inner.weight_lt (hy.exact hx)

/-- The chain of aliases is balanced: calls that end well and calls that fail leave it as it was, from every
state. It is exact: where a reference is called for in a run that has started without aliases, it lists the
references that are being worked out without a schema in between, each of them a component that is a
reference to the next one and the last of them to the one that is called for. Nothing else is ever called:
a resolver that is told its calls under way, and may do as it likes where the chain is not exact, is the
resolver. So what is reported as a circle is one of the components, whatever came before. -/
theorem aliases_balanced_exact (schemas : List (String × RefOr Schema)) :
    (∀ call p, (Call.run schemas call p).2.aliasing = p.aliasing) ∧
    (∀ calls p, (Call.runAll schemas calls p).aliasing = p.aliasing) ∧
    (∀ r p stack, Underway schemas ((.reference r, p) :: stack) →
      p.aliasing = aliasRun stack ∧ (r :: aliasRun stack).IsChain fun b a => next? schemas a = some b) ∧
    (∀ self : List (Call × Pass) → Call → Resolver TypeExpr,
      (∀ x stack, Exact schemas (x :: stack) →
        self stack x.1 x.2 = x.1.step schemas (self (x :: stack)) x.2) →
      ∀ call p, p.aliasing = [] → self [] call p = call.run schemas p) ∧
    ∀ calls call (p : Pass) s q, p.aliasing = [] →
      Call.run schemas call (Call.runAll schemas calls p) = (.error (.cycle s), q) →
      Circular schemas s := by
  refine ⟨Call.run_aliasing, Call.runAll_aliasing, fun r p stack h => h.exact,
    fun self h call p hp => ?_, fun calls call p s q hp h => ?_⟩
  · exact eq_run_of_exact h (x := (call, p)) (Underway.start call hp).exact
  · let z := Call.runAll schemas calls p
    have hz : z.aliasing = [] := (Call.runAll_aliasing calls p).trans hp
    have hfailed : Outcome (fun _ q => q.aliasing = z.aliasing) (Unwinds schemas z)
        (Call.run schemas call z) := call.restores z
    rw [h] at hfailed
    exact hfailed.2 hz s rfl

/-- A reference in the place of a schema is called for. -/
theorem calls_place (r key parent : String) (p : Pass) :
    Calls schemas (.schema (some (.ref r)) key parent, p) (.reference r, p) :=
  calls_of_stopped (congrArg Prod.fst (stoppedAt_self schemas (.reference r, p)))

/-- An object calls for the schema of its first property, without any aliases. -/
theorem calls_property {r c key : String} {s : Schema} {v : RefOr Schema}
    {fs : List (String × RefOr Schema)} {p : Pass} (hn : p.name? r = none)
    (hpoints : Points schemas r c (.inline s)) (henum : Schema.enumValues? s.enum = none)
    (hplain : s.isPlainObject = true) (hproperties : s.properties = (key, v) :: fs) :
    Calls schemas (.reference r, p) (.schema (some v) key (p.registry.reserve (capitalCase c)).1,
      { p.promised r (capitalCase c) with aliasing := [] }) := by
  let inside : Pass := { p.promised r (capitalCase c) with aliasing := [] }
  let name := (p.registry.reserve (capitalCase c)).1
  let y : Call × Pass := (.schema (some v) key name, inside)
  have hfields : Schema.visitFields (stoppedAt schemas y) s.properties s.required name inside =
      (.error (.unfinished ""), inside) := by
    rw [Schema.visitFields, hproperties, List.mapM_cons]
    exact bind_error (bind_error (stoppedAt_self schemas y) _) _
  refine calls_of_shape_stopped hn hpoints ?_
  rw [visitShape, apart, Schema.visitComponent, henum]
  simp only [if_pos hplain]
  exact congrArg Prod.fst (bind_error hfields _)

/-- A branch of a tree names the root as its parent, and the root is another name for the tree. -/
def branchSchemas : List (String × RefOr Schema) :=
  [("Tree", .ref "#/components/schemas/Branch"),
    ("Branch", .inline {
      type := some (.single "object"), properties := [("parent", .ref "#/components/schemas/Root")] }),
    ("Root", .ref "#/components/schemas/Tree")]

/-- On the way from the tree back to the tree there is a branch, and only the root counts. -/
theorem aliases_balanced_exact_branch :
    let tree := "#/components/schemas/Tree"
    let branch := "#/components/schemas/Branch"
    let root := "#/components/schemas/Root"
    let p : Pass := { registry := .empty }
    ∃ q inside z, Underway branchSchemas
        [(.reference tree, z), (.reference root, inside),
          (.schema (some (.ref root)) "parent" "Branch", inside), (.reference branch, q),
          (.reference tree, p)] ∧
      q.aliasing = [tree] ∧ inside.aliasing = [] ∧ z.aliasing = [root] ∧
      (Call.run branchSchemas (.reference tree) p).2.aliasing = [] ∧
      Circular loopSchemas "#/components/schemas/a" := by
  intro tree branch root p
  let q : Pass := { p.promised tree (capitalCase "Tree") with aliasing := [tree] }
  let inside : Pass := { q.promised branch (capitalCase "Branch") with aliasing := [] }
  let z : Pass := { inside.promised root (capitalCase "Root") with aliasing := [root] }
  have htree : Points branchSchemas tree "Tree" (.ref branch) := ⟨by decide +kernel, rfl⟩
  have hbranch : Points branchSchemas branch "Branch" (.inline {
      type := some (.single "object"), properties := [("parent", .ref root)] }) :=
    ⟨by decide +kernel, rfl⟩
  have hroot : Points branchSchemas root "Root" (.ref tree) := ⟨by decide +kernel, rfl⟩
  have hname : (q.registry.reserve (capitalCase "Branch")).1 = "Branch" := by decide +kernel
  have hfirst : Underway branchSchemas [(.reference branch, q), (.reference tree, p)] :=
    .call (.start (.reference tree) rfl) (calls_alias rfl htree (by decide))
  have hproperty := calls_property (p := q) (by decide +kernel) hbranch rfl (by decide) rfl
  rw [hname] at hproperty
  have hinside : Underway branchSchemas
      [(.reference root, inside), (.schema (some (.ref root)) "parent" "Branch", inside),
        (.reference branch, q), (.reference tree, p)] :=
    .call (.call hfirst hproperty) (calls_place root "parent" "Branch" inside)
  have hlast : Underway branchSchemas
      [(.reference tree, z), (.reference root, inside),
        (.schema (some (.ref root)) "parent" "Branch", inside), (.reference branch, q),
        (.reference tree, p)] :=
    .call hinside (calls_alias (by decide +kernel) hroot (by decide))
  obtain ⟨hbalanced, -, hexact, -⟩ := aliases_balanced_exact branchSchemas
  have hloop : Call.run loopSchemas (.reference "#/components/schemas/a") p =
      (.error (.cycle "#/components/schemas/a"), {
        registry := ⟨[], ["A"]⟩, names := [("#/components/schemas/a", "A")] }) := by cbv
  obtain ⟨-, -, -, -, hcircle⟩ := aliases_balanced_exact loopSchemas
  exact ⟨q, inside, z, hlast, (hexact _ _ _ hfirst).1, (hexact _ _ _ hinside).1, (hexact _ _ _ hlast).1,
    hbalanced _ p, hcircle [] _ p _ _ rfl hloop⟩

end Resolver

end ApiClient

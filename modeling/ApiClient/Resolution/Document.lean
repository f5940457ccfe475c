import ApiClient.Resolution.Operation

/-! A whole description, resolved in one pass. -/

namespace ApiClient

/-- A pass over a description that adds to the shapes of earlier ones. What it has added stays when
it fails. -/
def Document.endpoints (d : Document) (g : Registry) :
    Except ReferenceError (List Endpoint) × Registry :=
  let (result, pass) := (Resolver.endpoints d).run.run { registry := g }
  (result, pass.registry)

/-- The operations in the order of their names; those with the same name stay in the order of the
description. -/
def Document.resolve (d : Document) : Except ReferenceError Resolution :=
  match d.endpoints .empty with
  | (.ok operations, g) =>
    .ok ⟨operations.mergeSort fun a b => !decide (b.operationId < a.operationId), g⟩
  | (.error e, _) => .error e

end ApiClient

import NodeScript.Proofs.Graph.Draft

/-!
# Facts about the standard kinds

What building and decompiling rely on in the written kinds, checked kind by kind.
-/

namespace NodeScript

open Catalog

/-- Properties start at values that they accept. -/
theorem standardKinds_defaults :
    ∀ spec ∈ standardKinds, ∀ decl ∈ spec.properties, decl.accepts decl.default = true := by
  decide +kernel

theorem Script.ZoneKind.entrySpec_mem (kind : ZoneKind) : kind.entrySpec ∈ standardKinds := by
  cases kind <;> simp [standardKinds, structureKinds, entrySpec]

theorem Script.ZoneKind.exitSpec_mem (kind : ZoneKind) : kind.exitSpec ∈ standardKinds := by
  cases kind <;> simp [standardKinds, structureKinds, exitSpec]

/-- Group nodes before they stand for a graph. -/
def bareGroupSpec : KindSpec where
  id := groupKind
  name := "Group"
  category := .group
  role := .group
  description := "Evaluates another graph"
  properties := [⟨graphProperty, .graph, .graph ""⟩]

theorem bareGroupSpec_mem : bareGroupSpec ∈ standardKinds := by
  simp [standardKinds, structureKinds, bareGroupSpec]

/-- The kinds of the boundary nodes have no sockets of their own. -/
theorem boundaryKinds :
    (∃ spec ∈ standardKinds, spec.id = groupInputKind ∧ spec.role = .groupInput ∧ spec.inputs = []) ∧
    ∃ spec ∈ standardKinds, spec.id = groupOutputKind ∧ spec.role = .groupOutput ∧ spec.outputs = [] := by
  constructor <;> simp [standardKinds, structureKinds]

/-- The exit of a zone without items shows nothing. -/
theorem standardKinds_exits : ∀ spec ∈ standardKinds, spec.role.isZoneExit = true → spec.outputs = [] := by
  decide +kernel

/-- Of the entries of zones without items, only that of a simulation shows something. -/
theorem standardKinds_entries : ∀ spec ∈ standardKinds, spec.role.isZoneEntry = true →
    spec.outputs = [] ∨ spec.name = "Simulation Input" := by
  decide +kernel

/-- A constant node has no inputs and one output, which is always enabled. -/
theorem constantKinds_form : ∀ spec ∈ constantKinds, spec.role = .regular ∧ spec.inputs = [] ∧
    spec.outputs.length = 1 ∧ ∀ socket ∈ spec.outputs, socket.enabledWhen = none ∧ socket.enabled = true := by
  decide +kernel

theorem constantKinds_subset : constantKinds ⊆ standardKinds := by
  intro spec hspec
  simp [standardKinds, hspec]

/-- The node that carries a literal is a constant node. Its output holds the literal if that is the
place. -/
theorem Literal.constantNode_spec {value : Literal} {carrier : ConstantNode}
    (h : value.constantNode = .ok carrier) : ∃ spec ∈ constantKinds, spec.id = carrier.kind ∧
      (carrier.place = .outputDefault → ∀ socket ∈ spec.outputs,
        socket.type.coerce? value = some value ∧ socket.default.isSome = true) := by
  cases value <;> cases h <;> simp [constantKinds, Socket.output, SocketType.coerce?]

end NodeScript

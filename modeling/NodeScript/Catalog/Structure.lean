import NodeScript.Catalog.Sockets
import NodeScript.Node.Kind

/-!
# Kinds that give graphs their structure

Boundary nodes, group nodes and the two ends of zones. Ports of boundary and group nodes come from a
graph's interface, those for the state of a zone are added when the zone is built.
-/

namespace NodeScript.Catalog

/-- Boundary, group and zone nodes. -/
def structureKinds : List KindSpec :=
  [{ id := groupInputKind, name := "Group Input", category := .input, role := .groupInput
     description := "Exposes the graph's input parameters" },
    { id := groupOutputKind, name := "Group Output", category := .output, role := .groupOutput
      description := "Collects the graph's results" },
    { id := groupKind, name := "Group", category := .group, role := .group
      description := "Evaluates another graph"
      properties := [⟨graphProperty, .graph, .graph ""⟩] },
    { id := "GeometryNodeRepeatInput", name := "Repeat Input", category := .zone
      role := .repeatInput
      inputs := [int "Iterations" 1] },
    { id := "GeometryNodeRepeatOutput", name := "Repeat Output", category := .zone
      role := .repeatOutput },
    { id := "GeometryNodeSimulationInput", name := "Simulation Input", category := .zone
      role := .simulationInput
      outputs := [.output "Delta Time" .float] },
    { id := "GeometryNodeSimulationOutput", name := "Simulation Output", category := .zone
      role := .simulationOutput
      inputs := [boolean "Skip" false] }]

end NodeScript.Catalog

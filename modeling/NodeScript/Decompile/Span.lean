import NodeScript.Warning

/-!
# Spans of zones

The body of a zone is made of the nodes behind its entry that its exit depends on.
-/

namespace NodeScript

/-- A zone with the nodes of its body. -/
structure Span where
  entry : NodeId
  exit : NodeId
  body : List NodeId
deriving DecidableEq, Repr

namespace Graph

/-- Nodes at the far ends of the links that leave a node's outputs. -/
def consumersOf (graph : Graph) (id : NodeId) : List NodeId :=
  match graph.node? id with
  | none => []
  | some node => node.outputs.flatMap fun port => (graph.linksFrom port.id).map Link.toNode

/-- Nodes at the far ends of the links that reach a node's inputs. -/
def producersOf (graph : Graph) (id : NodeId) : List NodeId :=
  match graph.node? id with
  | none => []
  | some node => node.inputs.flatMap fun port => (graph.linksTo port.id).map Link.fromNode

/-- Everything in `domain` that can be reached from `pending` inside it. Each node found leaves the
domain, so cycles do no harm. -/
def gather (next : NodeId → List NodeId) (domain pending : List NodeId) : List NodeId :=
  match _found : pending.find? domain.contains with
  | none => []
  | some node => node :: gather next (domain.erase node) (next node ++ pending)
termination_by domain.length
decreasing_by
  have member : node ∈ domain := List.contains_iff_mem.mp (List.find?_some _found)
  have positive := List.length_pos_of_mem member
  rw [List.length_erase_of_mem member]
  omega

/-- Both ends of all links. -/
def linkEnds (graph : Graph) : List NodeId :=
  (graph.links.values.flatMap fun link => [link.fromNode, link.toNode]).eraseDups

/-- Nodes that can be reached from `start` without passing `stop`; neither of them counts. -/
def reachable (graph : Graph) (next : NodeId → List NodeId) (start stop : NodeId) : List NodeId :=
  gather next (graph.linkEnds.filter fun id => id ≠ start && id ≠ stop) (next start)

/-- The zone between two nodes. -/
def span (graph : Graph) (entry exit : NodeId) : Span where
  entry := entry
  exit := exit
  body :=
    let suppliers := graph.reachable graph.producersOf exit entry
    (graph.reachable graph.consumersOf entry exit).filter suppliers.contains

/-- Entries with the existing nodes they are paired with. -/
def pairedEntries (graph : Graph) : List (Node × NodeId × Node) :=
  (graph.nodes.values.filter fun node => node.role.isZoneEntry).filterMap fun entry =>
    entry.pairedOutput.bind fun exit => (graph.node? exit).map fun node => (entry, exit, node)

/-- All zones of the graph, by their entries. -/
def spans (graph : Graph) : List Span :=
  (graph.pairedEntries.filter fun (_, _, node) => node.role.isZoneExit).map
    fun (entry, exit, _) => graph.span entry.id exit

/-- Entries that are paired with something else than an exit. -/
def pairingWarnings (graph : Graph) : List Warning :=
  (graph.pairedEntries.filter fun (_, _, node) => !node.role.isZoneExit).map
    fun (entry, _, _) => .entryWithoutExit entry.name

end Graph

end NodeScript

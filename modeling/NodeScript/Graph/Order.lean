import NodeScript.Graph.Basic

/-!
# Dependency order

Producers before consumers, by a depth-first search along the links into a node.
-/

namespace NodeScript

namespace Graph

/-- Nodes that a node takes values from, in the order of the links. -/
def producers (graph : Graph) (node : NodeId) : List NodeId :=
  (graph.links.values.filter fun link => link.toNode = node).map Link.fromNode

/-- Append a node to an order behind everything it depends on, with `path` the nodes whose
dependencies are being placed. A node on its own path is a cycle. -/
def place (producers : NodeId → List NodeId) :
    Nat → List NodeId → NodeId → List NodeId → Option (List NodeId)
  | 0, _, _, _ => none
  | depth + 1, path, node, order =>
    if node ∈ path then none
    else if node ∈ order then some order
    else do
      let order ← (producers node).foldlM
        (fun order producer => place producers depth (node :: path) producer order) order
      return order ++ [node]

/-- All nodes, each behind its producers; `none` if there is a cycle. A path without a repetition
has at most one node more than there are links. -/
def order? (graph : Graph) : Option (List NodeId) :=
  graph.nodes.keys.foldlM
    (fun order node => place graph.producers (graph.links.size + 2) [] node order) []

/-- Message for a graph without an order. -/
def cycleMessage : String := "Graph contains a cycle"

end Graph

end NodeScript

import NodeScript.Decompile.Span

/-!
# Order of statements

Nodes that the sink depends on, each behind what it depends on. An exit of a zone depends on its
entry, and the entries themselves make no statements.
-/

namespace NodeScript

/-- The entry of the zone that ends in a node. -/
def Span.entryOf? (spans : List Span) (exit : NodeId) : Option NodeId :=
  (spans.reverse.find? fun span => span.exit = exit).map Span.entry

namespace Graph

/-- What has been visited, and the order so far. -/
structure Walk where
  visited : List NodeId := []
  order : List NodeId := []

/-- What a node depends on: the entry if it is an exit, then the sources of its links. -/
def dependencies (graph : Graph) (spans : List Span) (id : NodeId) : List NodeId :=
  (Span.entryOf? spans id).toList ++ graph.producersOf id

/-- Visit a node behind all it depends on. Every visit that goes deeper has a new node, so a depth
beyond the number of nodes is never used. -/
def visit (graph : Graph) (spans : List Span) : Nat → Walk → NodeId → Walk
  | 0, walk, _ => walk
  | depth + 1, walk, id =>
    if id ∈ walk.visited then walk
    else
      let walk := { walk with visited := id :: walk.visited }
      match graph.node? id with
      | none => walk
      | some node =>
        let walk := (graph.dependencies spans id).foldl (visit graph spans depth) walk
        if node.role.isZoneEntry then walk
        else { walk with order := walk.order ++ [id] }

/-- The nodes that make statements. -/
def statementOrder (graph : Graph) (spans : List Span) (source sink : NodeId) : List NodeId :=
  (graph.visit spans (graph.nodes.size + 2) {} sink).order.filter fun id =>
    id ≠ source && id ≠ sink

end Graph

end NodeScript

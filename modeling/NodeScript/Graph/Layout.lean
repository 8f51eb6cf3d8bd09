import NodeScript.Graph.Order

/-!
# Column layout

Nodes stand in columns, producers to the left of their consumers. Heights are estimated from the
ports and properties of a node.
-/

namespace NodeScript

/-- Sizes of nodes and gaps. -/
structure LayoutOptions where
  headerHeight : Single := 20
  linkHeight : Single := 28
  propertyHeight : Single := 28
  /-- Further height of a vector input without a link. -/
  vectorHeight : Single := 84
  scale : Single := 1
  /-- Horizontal and vertical distance between nodes. -/
  padding : Single × Single := (50, 25)
deriving DecidableEq, Repr

/-- Why a graph has no layout. -/
inductive LayoutError where
  | invalidScale (scale : Single)
  | nodeNotFound (node : NodeId)
deriving DecidableEq, Repr

def LayoutError.message : LayoutError → String
  | .invalidScale scale => "Invalid UI scale " ++ NumberStyle.message.text scale
  | .nodeNotFound node => "Node not found: NodeId(" ++ node.text ++ ")"

namespace Graph

/-- Height of a node with its ports. -/
def nodeHeight (graph : Graph) (node : Node) (options : LayoutOptions) : Single :=
  let inputs := Single.ofNat node.enabledInputs.length
  let outputs := Single.ofNat node.enabledOutputs.length
  let properties := Single.ofNat node.properties.length
  let openVectors := Single.ofNat
    (node.enabledInputs.filter fun port => port.type.isVector && !graph.isLinked port.id).length
  (options.headerHeight + outputs * options.linkHeight + properties * options.propertyHeight +
    inputs * options.linkHeight + openVectors * options.vectorHeight) * options.scale

/-- Consumers before producers; in a cyclic graph the newest node first. -/
def scan (graph : Graph) : List NodeId :=
  match graph.order? with
  | some order => order.reverse
  | none => graph.nodes.keys.reverse

/-- Whether a node has a link into a column. -/
def feeds (graph : Graph) (node : NodeId) (column : List NodeId) : Bool :=
  graph.links.values.any fun link => link.fromNode = node && column.contains link.toNode

/-- Place a node one column to the left of the first column it feeds, or in the last one. -/
def placeInColumn (graph : Graph) (columns : List (List NodeId)) (node : NodeId) :
    List (List NodeId) :=
  match columns.findIdx? (graph.feeds node) with
  | some 0 => [node] :: columns
  | some (position + 1) => columns.modify position (· ++ [node])
  | none =>
    match columns with
    | [] => [[node]]
    | _ => columns.modify (columns.length - 1) (· ++ [node])

/-- Nodes by column, from left to right. -/
def columns (graph : Graph) : List (List NodeId) := graph.scan.foldl graph.placeInColumn []

/-- Places of the nodes of a column from `y` on downwards, and the width of the widest. -/
def columnPlaces (graph : Graph) (options : LayoutOptions) (x : Single) :
    List NodeId → Single → Single → Except LayoutError (List (NodeId × Single × Single) × Single)
  | [], _, widest => .ok ([], widest)
  | id :: rest, y, widest =>
    match graph.node? id with
    | none => .error (.nodeNotFound id)
    | some node => do
      let height := graph.nodeHeight node options
      let (places, widest) ← columnPlaces graph options x rest
        (y - (height + options.padding.2)) (widest.max node.width)
      return ((id, x, y) :: places, widest)

/-- Places of all nodes, column by column from `x` on to the right. -/
def places (graph : Graph) (options : LayoutOptions) :
    List (List NodeId) → Single → Except LayoutError (List (NodeId × Single × Single))
  | [], _ => .ok []
  | column :: rest, x => do
    let (placed, widest) ← graph.columnPlaces options x column 0 0
    let others ← places graph options rest (x + (widest + options.padding.1))
    return placed ++ others

/-- Give every node a position. The scale has to be finite and positive. -/
def arrange (graph : Graph) (options : LayoutOptions) : Except LayoutError Graph :=
  if options.scale.isFinite && Single.less 0 options.scale then do
    let placed ← graph.places options graph.columns 0
    return placed.foldl
      (fun graph (id, x, y) => graph.updateNode id fun node => { node with position := (x, y) })
      graph
  else .error (.invalidScale options.scale)

end Graph

end NodeScript

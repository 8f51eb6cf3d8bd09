import NodeScript.Graph.Basic

/-!
# Connecting ports

A link needs two existing ports, an output and an input of types that connect, room at the input and
two different nodes. The checks are made in this order, and the first that fails is reported.
-/

namespace NodeScript

/-- Why two ports are not linked. -/
inductive LinkError where
  | nodeNotFound (node : NodeId)
  | portNotFound (port : PortId)
  | wrongDirection
  | incompatible (source target : SocketType)
  | alreadyConnected (name : String)
  | selfLoop
deriving DecidableEq, Repr

def LinkError.message : LinkError → String
  | .nodeNotFound node => "Node not found: NodeId(" ++ node.text ++ ")"
  | .portNotFound port => "Port not found: PortId(" ++ port.text ++ ")"
  | .wrongDirection => "Links must run from an output port to an input port"
  | .incompatible source target =>
    "Incompatible socket types: " ++ source.typeName ++ " -> " ++ target.typeName
  | .alreadyConnected name => "Input '" ++ name ++ "' is already connected"
  | .selfLoop => "Self-loop not allowed"

namespace Graph

/-- Look up a node for a link. -/
def linkNode (graph : Graph) (id : NodeId) : Except LinkError Node :=
  match graph.node? id with
  | some node => .ok node
  | none => .error (.nodeNotFound id)

/-- A port of the node. -/
def linkPort (node : Node) (id : PortId) : Except LinkError Port :=
  match node.port? id with
  | some port => .ok port
  | none => .error (.portNotFound id)

/-- Whether a link may be added. -/
def checkLink (graph : Graph) (fromNode : NodeId) (fromPort : PortId) (toNode : NodeId)
    (toPort : PortId) : Except LinkError Unit := do
  let source ← graph.linkNode fromNode
  let target ← graph.linkNode toNode
  let output ← linkPort source fromPort
  let input ← linkPort target toPort
  if output.direction ≠ .output ∨ input.direction ≠ .input then throw .wrongDirection
  if !output.canConnect input.toSocket then throw (.incompatible output.type input.type)
  if !input.multiInput && graph.isLinked toPort then throw (.alreadyConnected input.name)
  if fromNode = toNode then throw .selfLoop

/-- Add a link. A refused link leaves the graph and the supply as they were. -/
def connect (graph : Graph) (fromNode : NodeId) (fromPort : PortId) (toNode : NodeId)
    (toPort : PortId) : StateM Supply (Except LinkError (Graph × Link)) := do
  match graph.checkLink fromNode fromPort toNode toPort with
  | .error e => return .error e
  | .ok () =>
    let id ← Supply.fresh
    let link : Link := { id, fromNode, fromPort, toNode, toPort }
    return .ok ({ graph with links := graph.links.insert id link }, link)

end Graph

end NodeScript

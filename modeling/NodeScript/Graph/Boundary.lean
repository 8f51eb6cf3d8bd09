import NodeScript.Graph.Basic

/-!
# Boundary nodes

The outputs of source nodes show the interface's inputs, the inputs of sink nodes its outputs. Every
change of the interface is followed by an alignment: the port at a position keeps its identity, and
the links of ports that fall away fall away too.
-/

namespace NodeScript

namespace Boundary

/-- Ports for the entries: identities are kept by position, and drawn where there is no port yet. -/
def align (direction : Direction) : List Entry → List Port → StateM Supply (List Port)
  | [], _ => pure []
  | entry :: entries, port :: ports => do
    let rest ← align direction entries ports
    return { entry.socket direction with id := port.id } :: rest
  | entry :: entries, [] => do
    let port ← (entry.socket direction).mint
    let rest ← align direction entries []
    return port :: rest

/-- Align a node with the interface if it is a boundary node. -/
def alignNode (interface : Interface) (node : Node) : StateM Supply Node :=
  match node.role with
  | .groupInput => do
    let outputs ← align .output interface.inputs node.outputs
    return { node with outputs }
  | .groupOutput => do
    let inputs ← align .input interface.outputs node.inputs
    return { node with inputs }
  | _ => pure node

/-- Ports of a node beyond the interface. -/
def surplus (interface : Interface) (node : Node) : List PortId :=
  match node.role with
  | .groupInput => (node.outputs.drop interface.inputs.length).map Port.id
  | .groupOutput => (node.inputs.drop interface.outputs.length).map Port.id
  | _ => []

end Boundary

namespace Graph

/-- Align all boundary nodes with the interface. -/
def alignBoundary (graph : Graph) : StateM Supply Graph := do
  let dropped := graph.nodes.values.flatMap (Boundary.surplus graph.interface)
  let nodes ← graph.nodes.mapState (Boundary.alignNode graph.interface)
  return { graph with nodes }.dropLinks dropped

/-- Add a node. One at the boundary gets its ports. -/
def addNode (graph : Graph) (node : Node) : StateM Supply Graph :=
  let graph := { graph with nodes := graph.nodes.insert node.id node }
  if node.role.isBoundary then graph.alignBoundary else pure graph

/-- Change the interface and the boundary with it. -/
def withInterface (graph : Graph) (interface : Interface) : StateM Supply Graph :=
  { graph with interface }.alignBoundary

def setInputs (graph : Graph) (inputs : List Entry) : StateM Supply Graph :=
  graph.withInterface { graph.interface with inputs }

def setOutputs (graph : Graph) (outputs : List Entry) : StateM Supply Graph :=
  graph.withInterface { graph.interface with outputs }

/-- Add an input at the end. -/
def addInput (graph : Graph) (entry : Entry) : StateM Supply Graph :=
  graph.setInputs (graph.interface.inputs ++ [entry])

/-- Add an output at the end. -/
def addOutput (graph : Graph) (entry : Entry) : StateM Supply Graph :=
  graph.setOutputs (graph.interface.outputs ++ [entry])

/-- Put an entry in the place of an input; a position that does not exist changes nothing. -/
def replaceInput (graph : Graph) (position : Nat) (entry : Entry) : StateM Supply Graph :=
  if position < graph.interface.inputs.length then
    graph.setInputs (graph.interface.inputs.set position entry)
  else pure graph

/-- Drop the inputs from a position on. -/
def truncateInputs (graph : Graph) (size : Nat) : StateM Supply Graph :=
  graph.setInputs (graph.interface.inputs.take size)

/-- Remove all outputs. -/
def clearOutputs (graph : Graph) : StateM Supply Graph := graph.setOutputs []

/-- Change an input's data without an alignment. -/
def modifyInput (graph : Graph) (position : Nat) (f : Entry → Entry) : Graph :=
  { graph with
    interface := { graph.interface with inputs := graph.interface.inputs.modify position f } }

end Graph

end NodeScript

import NodeScript.Graph.Interface
import NodeScript.Node.Basic
import NodeScript.OrderedMap

/-!
# Graphs

Nodes and links in the order of their creation, with an interface.
-/

namespace NodeScript

/-- A link from an output to an input. -/
structure Link where
  id : LinkId
  fromNode : NodeId
  fromPort : PortId
  toNode : NodeId
  toPort : PortId
deriving DecidableEq, Repr

namespace Link

/-- Whether an end is at the node. -/
def touchesNode (link : Link) (node : NodeId) : Bool := link.fromNode = node || link.toNode = node

/-- Whether an end is at the port. -/
def touchesPort (link : Link) (port : PortId) : Bool := link.fromPort = port || link.toPort = port

end Link

/-- Nodes, links and the interface of a graph. -/
structure Graph where
  name : String
  nodes : OrderedMap NodeId Node := ∅
  links : OrderedMap LinkId Link := ∅
  interface : Interface := {}

namespace Graph

/-- Name of a graph that was given none. -/
def untitled : String := "Untitled"

/-- Remove all nodes and links; the interface stays. -/
def clear (graph : Graph) : Graph := { graph with nodes := ∅, links := ∅ }

/-- The node of the identity. -/
def node? (graph : Graph) (id : NodeId) : Option Node := graph.nodes.get? id

/-- Change one node. -/
def updateNode (graph : Graph) (id : NodeId) (f : Node → Node) : Graph :=
  { graph with nodes := graph.nodes.modify id f }

/-- The node that shows the graph's inputs. -/
def source? (graph : Graph) : Option Node :=
  graph.nodes.values.find? fun node => node.role = .groupInput

/-- The nodes that collect the graph's outputs. -/
def sinks (graph : Graph) : List Node :=
  graph.nodes.values.filter fun node => node.role = .groupOutput

/-- Links that leave the port. -/
def linksFrom (graph : Graph) (port : PortId) : List Link :=
  graph.links.values.filter fun link => link.fromPort = port

/-- Links that reach the port. -/
def linksTo (graph : Graph) (port : PortId) : List Link :=
  graph.links.values.filter fun link => link.toPort = port

/-- Links with an end at the node. -/
def linksOf (graph : Graph) (node : NodeId) : List Link :=
  graph.links.values.filter fun link => link.touchesNode node

/-- Whether a link ends at the port. -/
def isLinked (graph : Graph) (port : PortId) : Bool :=
  graph.links.values.any fun link => link.toPort = port

/-- Remove the links that touch one of the ports. -/
def dropLinks (graph : Graph) (ports : List PortId) : Graph :=
  { graph with links := graph.links.filter fun link => !ports.any link.touchesPort }

/-- All identities in the graph. -/
def ids (graph : Graph) : List Identity :=
  graph.nodes.entries.flatMap (fun (key, node) =>
    key :: node.id :: node.pairedOutput.toList ++ node.ports.map Port.id) ++
  graph.links.entries.flatMap (fun (key, link) =>
    [key, link.id, link.fromNode, link.fromPort, link.toNode, link.toPort]) ++
  (graph.interface.inputs ++ graph.interface.outputs).map Entry.id

end Graph

end NodeScript

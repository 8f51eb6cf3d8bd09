import NodeScript.Graph.Boundary
import NodeScript.Graph.Connect
import NodeScript.Graph.Zone

/-!
# Edits

The operations on a graph as data, so that histories of a graph are lists of edits.
-/

namespace NodeScript

/-- A change of a graph. -/
inductive Edit where
  | addNode (kind : NodeKind)
  | connect (fromNode : NodeId) (fromPort : PortId) (toNode : NodeId) (toPort : PortId)
  | setProperty (node : NodeId) (name : String) (value : PropertyValue)
  | addInput (declaration : Declaration)
  | replaceInput (position : Nat) (declaration : Declaration)
  | truncateInputs (size : Nat)
  | addOutput (declaration : Declaration)
  | clearOutputs
  | align
  | pairZone (entry exit : NodeId)
  | clearZoneItems (entry : NodeId)
  | addZoneItem (entry : NodeId) (name : String) (type : SocketType)
  | clear

/-- Why an edit fails. -/
inductive EditError where
  | link (error : LinkError)
  | property (error : PropertyError)
  | zone (error : ZoneError)
  | noNode (node : NodeId)
deriving DecidableEq, Repr

/-- What an edit answers. -/
inductive Edited where
  | done
  | node (id : NodeId)
  | link (link : Link)
  | position (index : Nat)
  | failed (error : EditError)
deriving DecidableEq, Repr

namespace Edit

/-- Carry out an edit; a failed one still answers with the graph it leaves behind. -/
def apply (graph : Graph) : Edit → StateM Supply (Graph × Edited)
  | .addNode kind => do
    let node ← Node.ofKind kind
    return (← graph.addNode node, .node node.id)
  | .connect fromNode fromPort toNode toPort => do
    match ← graph.connect fromNode fromPort toNode toPort with
    | .error e => return (graph, .failed (.link e))
    | .ok (graph, link) => return (graph, .link link)
  | .setProperty id name value =>
    match graph.node? id with
    | none => pure (graph, .failed (.noNode id))
    | some node =>
      match node.setProperty name value with
      | .error e => pure (graph, .failed (.property e))
      | .ok node => pure (graph.updateNode id fun _ => node, .done)
  | .addInput declaration => do
    let entry ← declaration.mint
    return (← graph.addInput entry, .position graph.interface.inputs.length)
  | .replaceInput position declaration => do
    let entry ← declaration.mint
    return (← graph.replaceInput position entry, .done)
  | .truncateInputs size => do return (← graph.truncateInputs size, .done)
  | .addOutput declaration => do
    let entry ← declaration.mint
    return (← graph.addOutput entry, .position graph.interface.outputs.length)
  | .clearOutputs => do return (← graph.clearOutputs, .done)
  | .align => do return (← graph.alignBoundary, .done)
  | .pairZone entry exit =>
    match graph.pairZone entry exit with
    | .error e => pure (graph, .failed (.zone e))
    | .ok graph => pure (graph, .done)
  | .clearZoneItems entry =>
    match graph.clearZoneItems entry with
    | .error e => pure (graph, .failed (.zone e))
    | .ok graph => pure (graph, .done)
  | .addZoneItem entry name type => do
    match ← graph.addZoneItem entry name type with
    | (graph, some e) => return (graph, .failed (.zone e))
    | (graph, none) => return (graph, .done)
  | .clear => pure (graph.clear, .done)

/-- Carry out edits one after another. -/
def applyAll : List Edit → Graph → StateM Supply Graph
  | [], graph => pure graph
  | edit :: rest, graph => do
    let (graph, _) ← edit.apply graph
    applyAll rest graph

end Edit

end NodeScript

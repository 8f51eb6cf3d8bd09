import NodeScript.Graph.Basic

/-!
# Zones

A zone is a pair of nodes, an entry and an exit. Each item of its state has an input and an output
on both of them.
-/

namespace NodeScript

/-- Why a zone has no items. -/
inductive ZoneError where
  | nodeNotFound (node : NodeId)
  | notAZone (node : NodeId)
deriving DecidableEq, Repr

def ZoneError.message : ZoneError → String
  | .nodeNotFound node => "Node not found: NodeId(" ++ node.text ++ ")"
  | .notAZone node => "Node NodeId(" ++ node.text ++ ") is not a paired zone entry"

namespace Graph

/-- Make a zone of an entry and an exit of the same flavour. -/
def pairZone (graph : Graph) (entry exit : NodeId) : Except ZoneError Graph :=
  match graph.node? exit, graph.node? entry with
  | none, _ => .error (.nodeNotFound exit)
  | some _, none => .error (.nodeNotFound entry)
  | some exitNode, some entryNode =>
    if entryNode.role.pairs exitNode.role then
      .ok (graph.updateNode entry fun node => { node with pairedOutput := some exit })
    else .error (.notAZone entry)

/-- The exit that belongs to an entry. -/
def zoneExit (graph : Graph) (entry : NodeId) : Except ZoneError NodeId :=
  match graph.node? entry with
  | none => .error (.nodeNotFound entry)
  | some node =>
    match node.pairedOutput with
    | none => .error (.notAZone entry)
    | some exit => .ok exit

/-- Remove the items of one end of a zone; also gives the identities of their ports. -/
def withoutItems (graph : Graph) (id : NodeId) : Graph × List PortId :=
  match graph.node? id with
  | none => (graph, [])
  | some node =>
    (graph.updateNode id fun node =>
      { node with
        inputs := node.inputs.filter fun port => !port.zoneItem
        outputs := node.outputs.filter fun port => !port.zoneItem },
      (node.ports.filter fun port => port.zoneItem).map Port.id)

/-- Remove all items of a zone with the links that touch them. -/
def clearZoneItems (graph : Graph) (entry : NodeId) : Except ZoneError Graph := do
  let exit ← graph.zoneExit entry
  let (graph, first) := graph.withoutItems entry
  let (graph, second) := graph.withoutItems exit
  return graph.dropLinks (first ++ second)

/-- Append an item's input and output to one end of a zone. -/
def addItemTo (graph : Graph) (name : String) (type : SocketType) (id : NodeId) :
    StateM Supply (Option Graph) :=
  match graph.node? id with
  | none => pure none
  | some _ => do
    let input ← { Socket.input name type with zoneItem := true }.mint
    let output ← { Socket.output name type with zoneItem := true }.mint
    return some (graph.updateNode id fun node =>
      { node with inputs := node.inputs ++ [input], outputs := node.outputs ++ [output] })

/-- Append an item to a zone. If the exit is missing the entry has the item all the same. -/
def addZoneItem (graph : Graph) (entry : NodeId) (name : String) (type : SocketType) :
    StateM Supply (Graph × Option ZoneError) :=
  match graph.zoneExit entry with
  | .error e => pure (graph, some e)
  | .ok exit => do
    match ← graph.addItemTo name type entry with
    | none => return (graph, some (.nodeNotFound entry))
    | some graph =>
      match ← graph.addItemTo name type exit with
      | none => return (graph, some (.nodeNotFound exit))
      | some graph => return (graph, none)

end Graph

end NodeScript

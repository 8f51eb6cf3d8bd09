import Mathlib.Logic.Function.Basic
import Mathlib.Logic.Relation
import NodeScript.Build.Zone
import NodeScript.Proofs.Node.Shape

/-!
# Graphs under construction

A draft is a graph together with what its construction knows about it: the order in which nodes were
completed, the shape of every node, and the zones around the places where a node is fed and where
its outputs can be seen. A step adds a node or both ends of a zone, revises a node that is not
complete, links a completed node to one that is not, completes a node, or adds a result.
-/

namespace NodeScript

/-! ## Shapes of group nodes and zones -/

/-- Nodes that stand for a graph. -/
def groupSpec (name : String) (interface : Interface) : KindSpec where
  id := groupKind
  name := name
  category := .group
  role := .group
  inputs := interface.inputSockets
  outputs := interface.outputSockets
  properties := [⟨graphProperty, .graph, .graph ""⟩]

/-- The input that an item of a zone has on either end. -/
def itemInput (item : String × SocketType) : Socket := { Socket.input item.1 item.2 with zoneItem := true }

/-- The output that an item of a zone has on either end. -/
def itemOutput (item : String × SocketType) : Socket := { Socket.output item.1 item.2 with zoneItem := true }

/-- One end of a zone with its items. -/
def Kind.withItems (spec : KindSpec) (items : List (String × SocketType)) : KindSpec :=
  { spec with
    inputs := spec.inputs ++ items.map itemInput
    outputs := spec.outputs ++ items.map itemOutput }

namespace Script.ZoneKind

/-- The entry of a zone without items. -/
def entrySpec : ZoneKind → KindSpec
  | .repetition =>
    { id := "GeometryNodeRepeatInput", name := "Repeat Input", category := .zone
      role := .repeatInput
      inputs := [Catalog.int "Iterations" 1] }
  | .simulation =>
    { id := "GeometryNodeSimulationInput", name := "Simulation Input", category := .zone
      role := .simulationInput
      outputs := [.output "Delta Time" .float] }

/-- The exit of a zone without items. -/
def exitSpec : ZoneKind → KindSpec
  | .repetition =>
    { id := "GeometryNodeRepeatOutput", name := "Repeat Output", category := .zone
      role := .repeatOutput }
  | .simulation =>
    { id := "GeometryNodeSimulationOutput", name := "Simulation Output", category := .zone
      role := .simulationOutput
      inputs := [Catalog.boolean "Skip" false] }

end Script.ZoneKind

/-! ## Rules -/

/-- What a construction may use. -/
structure Rules where
  /-- Graph that a function name stands for, with its interface. -/
  callee? : String → Option (String × Interface)
  /-- Script names of zone items. -/
  item : String → Prop
  /-- Functions that are called, with the names of their arguments. -/
  call : String → List String → Prop
  /-- Functions that are called with the name of a graph for the reference. -/
  refers : String → String → Prop
  /-- Names of outputs that are selected. -/
  selected : String → Prop
  /-- Greatest number of zones around a node. -/
  depth : Nat

/-- Item names come back unchanged from their display names. -/
def Rules.Faithful (rules : Rules) : Prop := ∀ name, rules.item name → snakeCase (titleCase name) = name

namespace Node

/-- The first enabled output of a name. -/
def FirstNamed (node : Node) (port : Port) : Prop :=
  (node.enabledOutputs.find? fun p => snakeCase p.name = snakeCase port.name) = some port

/-- The last output of a name. -/
def LastNamed (node : Node) (port : Port) : Prop :=
  (node.outputs.reverse.find? fun p => snakeCase p.name = snakeCase port.name) = some port

/-- Outputs that a script can refer to: an only output or one that is selected, of several with one
name the first, at a zone the last. -/
structure Referable (rules : Rules) (node : Node) (port : Port) : Prop where
  mem : port ∈ node.outputs
  enabled : port.enabled = true
  named : match node.role with
    | .groupInput => True
    | .repeatInput | .simulationInput => node.pairedOutput.isSome = true → rules.Faithful → node.LastNamed port
    | .repeatOutput | .simulationOutput => rules.Faithful → node.LastNamed port
    | _ => node.FirstNamed port ∧ (node.enabledOutputs.length = 1 ∨ rules.selected (snakeCase port.name))

end Node

namespace Graph

/-- The graph with a further node. -/
def withNode (graph : Graph) (node : Node) : Graph := { graph with nodes := graph.nodes.insert node.id node }

/-- The graph with a further link. -/
def withLink (graph : Graph) (link : Link) : Graph := { graph with links := graph.links.insert link.id link }

/-- The graph with a further result and its port at the sink. -/
def withOutput (graph : Graph) (sink : NodeId) (entry : Entry) (port : Port) : Graph :=
  { graph.updateNode sink fun node => { node with inputs := node.inputs ++ [port] } with
    interface := { graph.interface with outputs := graph.interface.outputs ++ [entry] } }

end Graph

/-! ## Drafts -/

/-- What is known of a node: its shape, the zones around its inputs and those around its outputs, by
their entries and innermost first. -/
structure Info where
  shape : KindSpec
  reads : List NodeId
  shows : List NodeId

structure Draft where
  graph : Graph
  source : NodeId
  sink : NodeId
  /-- Completed nodes in the order of their completion. -/
  done : List NodeId
  info : NodeId → Info
  /-- Codes from here on are not in use. -/
  next : Nat

namespace Draft

variable {rules : Rules}

/-- A node that is complete is a call, the call of a graph, or one end of a zone. -/
inductive Complete (rules : Rules) (draft : Draft) (id : NodeId) (node : Node) : Prop
  | plain (spec : KindSpec) (listed : spec ∈ Catalog.standardKinds) (inner : spec.role.isBoundary = false)
      (shape : (draft.info id).shape = spec) (unpaired : node.pairedOutput = none)
      (path : (draft.info id).shows = (draft.info id).reads)
      (called : spec.role.isZoneEntry = true → ∃ args, rules.call (snakeCase spec.name) args)
  | group (function name : String) (interface : Interface) (args : List String)
      (callee : rules.callee? function = some (name, interface)) (called : rules.call function args)
      (shape : (draft.info id).shape = groupSpec name interface) (unpaired : node.pairedOutput = none)
      (path : (draft.info id).shows = (draft.info id).reads)
      (graph : graphProperty ∉ args → node.graph? = some name)
      (refers : ∀ text, node.graph? = some text → text = name ∨ rules.refers function text)
  | entry (kind : Script.ZoneKind) (items : List (String × SocketType)) (exit : NodeId)
      (paired : node.pairedOutput = some exit)
      (shape : (draft.info id).shape = kind.entrySpec.withItems items)
      (exitShape : (draft.info exit).shape = kind.exitSpec.withItems items)
      (path : (draft.info id).shows = id :: (draft.info id).reads)
      (exitReads : (draft.info exit).reads = id :: (draft.info id).reads)
      (exitShows : (draft.info exit).shows = (draft.info id).reads)
      (named : ∀ item ∈ items, ∃ name, rules.item name ∧ item.1 = titleCase name ∧ item.2 ∈ SocketType.standard)
      (found : (draft.graph.node? exit).isSome = true)
  | exit (kind : Script.ZoneKind) (items : List (String × SocketType)) (entry : NodeId) (entryNode : Node)
      (complete : entry ∈ draft.done) (found : draft.graph.node? entry = some entryNode)
      (paired : entryNode.pairedOutput = some id) (unpaired : node.pairedOutput = none)
      (shape : (draft.info id).shape = kind.exitSpec.withItems items)
      (entryShape : (draft.info entry).shape = kind.entrySpec.withItems items)
      (reads : (draft.info id).reads = entry :: (draft.info id).shows)

/-- A link that may be there. -/
structure Linked (rules : Rules) (draft : Draft) (link : Link) : Prop where
  ready : link.fromNode ∈ draft.done
  start : ∃ node port, draft.graph.node? link.fromNode = some node ∧ port.id = link.fromPort ∧
    node.Referable rules port
  finish : ∃ node port, draft.graph.node? link.toNode = some node ∧ port ∈ node.inputs ∧
    port.id = link.toPort ∧ port.enabled = true ∧
    (node.role.isBoundary = false → node.Pristine (draft.info link.toNode).shape link.toPort)
  scope : (draft.info link.fromNode).shows <:+ (draft.info link.toNode).reads

/-- No node and no port has the identity. -/
structure Unused (draft : Draft) (id : Identity) : Prop where
  node : draft.graph.node? id = none
  port : ∀ key node, draft.graph.node? key = some node → id ∉ node.ports.map Port.id

/-- What is known of a new node keeps to the rules. -/
structure Allows (rules : Rules) (info : Info) : Prop where
  reads : info.reads.length ≤ rules.depth
  shows : info.shows.length ≤ rules.depth

/-- One step of a construction. -/
inductive Step (rules : Rules) : Draft → Draft → Prop
  | skip {draft : Draft} {next : Nat} (le : draft.next ≤ next) : Step rules draft { draft with next }
  | add {draft : Draft} {node : Node} {info : Info} {first next : Nat} (made : node.Made info.shape first next)
      (le : draft.next ≤ next) (unused : ∀ id ∈ node.id :: node.ports.map Port.id, draft.Unused id)
      (inner : node.role.isBoundary = false) (allowed : Allows rules info) (unpaired : node.pairedOutput = none) :
      Step rules draft
        { draft with graph := draft.graph.withNode node, info := Function.update draft.info node.id info, next }
  | zone {draft : Draft} {entry exit : Node} {entryInfo exitInfo : Info} {first next : Nat} (le : draft.next ≤ next)
      (entryMade : entry.Made entryInfo.shape first next)
      (entryUnused : ∀ id ∈ entry.id :: entry.ports.map Port.id, draft.Unused id)
      (entryInner : entry.role.isBoundary = false) (entryAllowed : Allows rules entryInfo)
      (exitMade : exit.Made exitInfo.shape first next)
      (exitUnused : ∀ id ∈ exit.id :: exit.ports.map Port.id, Unused
        { draft with
          graph := draft.graph.withNode entry, info := Function.update draft.info entry.id entryInfo, next } id)
      (exitInner : exit.role.isBoundary = false) (exitAllowed : Allows rules exitInfo)
      (paired : entry.pairedOutput = some exit.id) (unpaired : exit.pairedOutput = none)
      (reads : exitInfo.reads = entry.id :: exitInfo.shows) :
      Step rules draft
        { draft with
          graph := (draft.graph.withNode entry).withNode exit
          info := Function.update (Function.update draft.info entry.id entryInfo) exit.id exitInfo
          next }
  | revise {draft : Draft} {node node' : Node} (found : draft.graph.node? node.id = some node)
      (opened : node.id ∉ draft.done) (inner : node.role.isBoundary = false)
      (shape : node'.Instantiates (draft.info node.id).shape) (ports : node.SamePorts node')
      (linked : ∀ port ∈ node.inputs, draft.graph.isLinked port.id = true → port ∈ node'.inputs) :
      Step rules draft { draft with graph := draft.graph.updateNode node.id fun _ => node' }
  | link {draft : Draft} {link : Link} {next : Nat} (le : draft.next ≤ link.id.code) (lt : link.id.code < next)
      (check : draft.graph.checkLink link.fromNode link.fromPort link.toNode link.toPort = .ok ())
      (opened : link.toNode ∉ draft.done) (linked : draft.Linked rules link) :
      Step rules draft { draft with graph := draft.graph.withLink link, next }
  | close {draft : Draft} {node : Node} {id : NodeId} (found : draft.graph.node? id = some node)
      (opened : id ∉ draft.done) (inner : node.role.isBoundary = false)
      (complete : draft.Complete rules id node) :
      Step rules draft { draft with done := draft.done ++ [id] }
  | output {draft : Draft} {entry : Entry} {port : Port} {next : Nat} (le : draft.next ≤ port.id.code)
      (lt : port.id.code < next) (plain : entry.toDeclaration = { name := entry.name, type := entry.type })
      (form : port.toSocket = entry.socket .input) :
      Step rules draft { draft with graph := draft.graph.withOutput draft.sink entry port, next }

/-- Any number of steps. -/
abbrev Steps (rules : Rules) : Draft → Draft → Prop := Relation.ReflTransGen (Step rules)

end Draft

end NodeScript

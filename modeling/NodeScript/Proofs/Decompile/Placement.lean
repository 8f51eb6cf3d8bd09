import Mathlib.Tactic.Simps.Basic
import NodeScript.Decompile.Program
import NodeScript.Proofs.Graph.Order

/-!
# Decompiling and places

The program of a graph says nothing about where its nodes are. So graphs that are the same but for
the places of their nodes, such as a graph and its layout, have the same program and the same
warnings.
-/

namespace NodeScript

open Script List

/-! ## Graphs without places -/

/-- The node at the origin. -/
@[simps]
def Node.unplaced (node : Node) : Node := { node with position := (0, 0) }

namespace Node

variable (node : Node)

@[simp] theorem graph?_unplaced : node.unplaced.graph? = node.graph? := rfl

@[simp] theorem port?_unplaced (id : PortId) : node.unplaced.port? id = node.port? id := rfl

@[simp] theorem enabledInputs_unplaced : node.unplaced.enabledInputs = node.enabledInputs := rfl

@[simp] theorem enabledOutputs_unplaced : node.unplaced.enabledOutputs = node.enabledOutputs := rfl

end Node

/-- The graph with all nodes at the origin. Graphs for which this is the same differ at most in the
places of their nodes. -/
@[simps name links interface]
def Graph.unplaced (graph : Graph) : Graph := { graph with nodes := graph.nodes.map Node.unplaced }

namespace Graph

variable (graph : Graph)

@[simp] theorem node?_unplaced (id : NodeId) : graph.unplaced.node? id = (graph.node? id).map Node.unplaced :=
  OrderedMap.get?_map graph.nodes Node.unplaced id

@[simp] theorem values_unplaced : graph.unplaced.nodes.values = graph.nodes.values.map Node.unplaced := by
  simp [unplaced, OrderedMap.values, OrderedMap.map, OrderedMap.mapEntries]

@[simp] theorem size_unplaced : graph.unplaced.nodes.size = graph.nodes.size := by
  simp [unplaced, OrderedMap.size, OrderedMap.map, OrderedMap.mapEntries]

@[simp] theorem linksTo_unplaced (port : PortId) : graph.unplaced.linksTo port = graph.linksTo port := rfl

@[simp] theorem linksFrom_unplaced (port : PortId) : graph.unplaced.linksFrom port = graph.linksFrom port := rfl

/-- Places are no identities. -/
theorem ids_unplaced : graph.unplaced.ids = graph.ids := by
  simp only [ids, unplaced, OrderedMap.map, OrderedMap.mapEntries, flatMap_map]
  rfl

theorem unplaced_move (id : NodeId) (position : Single × Single) :
    (graph.move id position).unplaced = graph.unplaced := by
  have hnodes : (graph.nodes.modify id fun node => { node with position }).map Node.unplaced =
      graph.nodes.map Node.unplaced := by
    apply OrderedMap.ext
    simp only [OrderedMap.modify, OrderedMap.map, OrderedMap.mapEntries, map_map]
    refine map_congr_left fun e _ => ?_
    by_cases h : e.1 = id <;> simp [h, Node.unplaced]
  rw [unplaced, unplaced, move, updateNode, hnodes]

/-- A layout changes places and nothing else. -/
theorem unplaced_arrange {graph graph' : Graph} {options : LayoutOptions} (h : graph.arrange options = .ok graph') :
    graph'.unplaced = graph.unplaced := by
  refine arrange_induction (P := fun moved => moved.unplaced = graph.unplaced) h rfl ?_
  intro moved id position same
  exact (unplaced_move moved id position).trans same

/-! ## Zones and order -/

@[simp] theorem consumersOf_unplaced : graph.unplaced.consumersOf = graph.consumersOf := by
  funext id
  cases h : graph.node? id <;> simp [consumersOf, h]

@[simp] theorem producersOf_unplaced : graph.unplaced.producersOf = graph.producersOf := by
  funext id
  cases h : graph.node? id <;> simp [producersOf, h]

@[simp] theorem span_unplaced : graph.unplaced.span = graph.span := by
  funext entry exit
  simp [span, reachable, linkEnds]

theorem pairedEntries_unplaced : graph.unplaced.pairedEntries =
    graph.pairedEntries.map fun (entry, exit, node) => (entry.unplaced, exit, node.unplaced) := by
  simp only [pairedEntries, values_unplaced, node?_unplaced, filter_map, filterMap_map, map_filterMap]
  refine filterMap_congr fun entry _ => ?_
  cases hexit : entry.pairedOutput with
  | none => simp [hexit]
  | some exit => cases h : graph.node? exit <;> simp [hexit, h]

@[simp] theorem spans_unplaced : graph.unplaced.spans = graph.spans := by
  simp [spans, pairedEntries_unplaced, filter_map, Function.comp_def]

@[simp] theorem pairingWarnings_unplaced : graph.unplaced.pairingWarnings = graph.pairingWarnings := by
  simp [pairingWarnings, pairedEntries_unplaced, filter_map, Function.comp_def]

@[simp] theorem source?_unplaced : graph.unplaced.source? = graph.source?.map Node.unplaced := by
  rw [source?, values_unplaced, List.find?_map]
  rfl

@[simp] theorem sinks_unplaced : graph.unplaced.sinks = graph.sinks.map Node.unplaced := by
  rw [sinks, values_unplaced, filter_map]
  rfl

@[simp] theorem visit_unplaced (spans : List Span) (depth : Nat) :
    graph.unplaced.visit spans depth = graph.visit spans depth := by
  induction depth with
  | zero => rfl
  | succ depth ih =>
    funext walk id
    rw [visit, visit, ih]
    cases h : graph.node? id <;> simp [h, dependencies]

@[simp] theorem statementOrder_unplaced : graph.unplaced.statementOrder = graph.statementOrder := by
  funext spans source sink
  simp [statementOrder]

end Graph

@[simp] theorem statementNames_unplaced (graph : Graph) (catalog : Catalog) (order : List NodeId)
    (counts : List (String × Nat)) :
    statementNames graph.unplaced catalog order counts = statementNames graph catalog order counts := by
  induction order generalizing counts with
  | nil => rfl
  | cons id rest ih => cases h : graph.node? id <;> simp [statementNames, h, ih]

/-! ## Statements -/

namespace References

def unplaced (refs : References) : References := { refs with graph := refs.graph.unplaced }

variable (refs : References)

@[simp] theorem graph_unplaced : refs.unplaced.graph = refs.graph.unplaced := rfl

@[simp] theorem target_unplaced (id : NodeId) : refs.unplaced.target id = refs.target id := rfl

@[simp] theorem functionOf_unplaced (node : Node) : functionOf node.unplaced = functionOf node := rfl

@[simp] theorem zoneKind_unplaced (entry : Node) : zoneKind entry.unplaced = zoneKind entry := rfl

@[simp] theorem linkValue?_unplaced : refs.unplaced.linkValue? = refs.linkValue? := by
  funext link
  simp only [linkValue?, graph_unplaced, Graph.node?_unplaced]
  cases refs.graph.node? link.fromNode <;> rfl

@[simp] theorem portValue?_unplaced : refs.unplaced.portValue? = refs.portValue? := by
  funext port hidden
  simp [portValue?]

@[simp] theorem inputArgument?_unplaced : refs.unplaced.inputArgument? = refs.inputArgument? := by
  funext name ports
  simp [inputArgument?]

@[simp] theorem arguments_unplaced (node : Node) : refs.unplaced.arguments node.unplaced = refs.arguments node := by
  simp [arguments, propertyArguments, outputArguments, inputArguments]

@[simp] theorem callStatement?_unplaced (id : NodeId) :
    refs.unplaced.callStatement? id = refs.callStatement? id := by
  cases h : refs.graph.node? id <;> simp [callStatement?, h]

@[simp] theorem zoneStatement?_unplaced (span : Span) (body : List Statement) :
    refs.unplaced.zoneStatement? span body = refs.zoneStatement? span body := by
  cases hentry : refs.graph.node? span.entry <;> cases hexit : refs.graph.node? span.exit <;>
    simp [zoneStatement?, hentry, hexit]

mutual

theorem statement?_unplaced : (piece : Piece) → refs.unplaced.statement? piece = refs.statement? piece
  | .call id => by rw [statement?, statement?, callStatement?_unplaced]
  | .zone span body => by rw [statement?, statement?, zoneStatement?_unplaced, statements_unplaced body]

theorem statements_unplaced : (pieces : List Piece) → refs.unplaced.statements pieces = refs.statements pieces
  | [] => rfl
  | piece :: rest => by rw [statements, statements, statement?_unplaced piece, statements_unplaced rest]

end

@[simp] theorem inputPorts_unplaced (node : Node) :
    refs.unplaced.inputPorts node.unplaced = refs.inputPorts node := by
  simp [inputPorts]

@[simp] theorem zonePorts_unplaced (entry exit : Node) :
    refs.unplaced.zonePorts entry.unplaced exit.unplaced = refs.zonePorts entry exit := by
  simp [zonePorts]

mutual

theorem examined_unplaced : (piece : Piece) → refs.unplaced.examined piece = refs.examined piece
  | .call id => by cases h : refs.graph.node? id <;> simp [examined, h]
  | .zone span body => by
    rw [examined, examined, examinedAll_unplaced body]
    cases hentry : refs.graph.node? span.entry <;> cases hexit : refs.graph.node? span.exit <;> simp [hentry, hexit]

theorem examinedAll_unplaced : (pieces : List Piece) → refs.unplaced.examinedAll pieces = refs.examinedAll pieces
  | [] => rfl
  | piece :: rest => by rw [examinedAll, examinedAll, examined_unplaced piece, examinedAll_unplaced rest]

end

@[simp] theorem portWarnings_unplaced : refs.unplaced.portWarnings = refs.portWarnings := by
  have hlink : refs.unplaced.linkWarning? = refs.linkWarning? := by
    funext link
    simp only [linkWarning?, graph_unplaced, Graph.node?_unplaced]
    cases refs.graph.node? link.fromNode <;> rfl
  funext port
  simp [portWarnings, hlink]

end References

/-! ## Programs -/

namespace Decompilation

def unplaced (self : Decompilation) : Decompilation :=
  { self with refs := self.refs.unplaced, sink := self.sink.unplaced }

theorem program_unplaced (self : Decompilation) : self.unplaced.program = self.program := by
  simp [program, unplaced, References.statements_unplaced]

theorem warnings_unplaced (self : Decompilation) : self.unplaced.warnings = self.warnings := by
  simp [warnings, unplaced, References.examinedAll_unplaced]

theorem ofGraph_unplaced (graph : Graph) (catalog : Catalog) :
    ofGraph graph.unplaced catalog = (ofGraph graph catalog).map unplaced := by
  cases hsinks : graph.sinks with
  | nil => simp [ofGraph, hsinks, Except.map]
  | cons sink rest =>
    cases hsource : graph.source? <;>
      simp [ofGraph, hsinks, hsource, Except.map, unplaced, References.unplaced]

end Decompilation

namespace Graph

theorem decompile_unplaced (graph : Graph) (catalog : Catalog) :
    graph.unplaced.decompile catalog = graph.decompile catalog := by
  rw [decompile, decompile, Decompilation.ofGraph_unplaced]
  cases Decompilation.ofGraph graph catalog with
  | error e => rfl
  | ok found => exact congrArg Except.ok found.program_unplaced

theorem decompileWarnings_unplaced (graph : Graph) (catalog : Catalog) :
    graph.unplaced.decompileWarnings catalog = graph.decompileWarnings catalog := by
  rw [decompileWarnings, decompileWarnings, Decompilation.ofGraph_unplaced]
  cases Decompilation.ofGraph graph catalog with
  | error e => rfl
  | ok found => exact found.warnings_unplaced

end Graph

end NodeScript

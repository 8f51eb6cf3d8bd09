import NodeScript.Build.Trace
import NodeScript.Catalog.Functions
import NodeScript.Graph.Boundary
import NodeScript.Settings
import NodeScript.Socket.Classes
import NodeScript.Warning

/-!
# The state of building

A session is what all builds have in common. Building changes a store, draws identities, enters and
leaves graphs, notes warnings and reports events; all of that stays when it ends in an error.
-/

namespace NodeScript

/-- What builds look up and do not change. -/
structure Session where
  catalog : Catalog
  classes : SocketClasses := .standard
  functions : FunctionTable := .ofCatalog catalog
  settings : Settings := {}

/-- The state of a build. -/
structure Build where
  store : Store
  supply : Supply
  /-- Graphs being built, innermost first. -/
  scopes : List String := []
  warnings : List Warning := []
  trace : List Event := []

/-- A step of a build. What is done before it fails stays. -/
abbrev BuildM := ExceptT BuildError (StateM Build)

namespace Build

/-- Draw identities. -/
def draw {α : Type} (step : StateM Supply α) : BuildM α :=
  modifyGet fun build =>
    let (result, supply) := step build.supply
    (result, { build with supply })

/-- Give a warning. -/
def warn (warning : Warning) : BuildM Unit :=
  modify fun build => { build with warnings := build.warnings ++ [warning] }

/-- Record an event. -/
def report (event : Event) : BuildM Unit :=
  modify fun build => { build with trace := build.trace ++ [event] }

/-- Fail with the error, if there is one. -/
def ofExcept {α : Type} : Except BuildError α → BuildM α
  | .ok a => pure a
  | .error e => throw e

/-- Name of the graph that new nodes go into. -/
def active : BuildM String := do
  match (← get).scopes with
  | name :: _ => return name
  | [] => throw .noActiveGraph

/-- The graph that new nodes go into. -/
def graph : BuildM Graph := do
  let name ← active
  match (← get).store.get? name with
  | some graph => return graph
  | none => throw (.unknownGraph name)

/-- Replace the graph being built. -/
def putGraph (graph : Graph) : BuildM Unit := do
  let name ← active
  modify fun build => { build with store := build.store.set name graph }

/-- A node of the graph being built. -/
def node (id : NodeId) : BuildM Node := do
  match (← graph).node? id with
  | some node => return node
  | none => throw (.link (.nodeNotFound id))

/-- Put a changed node in the place of an old one. -/
def putNode (id : NodeId) (node : Node) : BuildM Unit := do
  putGraph ((← graph).updateNode id fun _ => node)

/-- A new node of a kind in the active graph. -/
def addNode (session : Session) (kind : String) : BuildM NodeId := do
  match session.catalog.get? kind with
  | none => throw (.unknownKind kind)
  | some found =>
    let node ← draw (Node.ofKind found)
    let graph ← graph
    putGraph (← draw (graph.addNode node))
    return node.id

/-- Set a property, if the node accepts it. -/
def setProperty (id : NodeId) (name : String) (value : PropertyValue) : BuildM Unit := do
  match (← node id).setProperty name value with
  | .ok node => putNode id node
  | .error e => throw (.property e)

/-- Port of a node of the active graph. -/
def port (id : NodeId) (portId : PortId) : BuildM Port := do
  match (← node id).port? portId with
  | some port => return port
  | none => throw (.link (.portNotFound portId))

/-- Give a port its default. -/
def setDefault (id : NodeId) (portId : PortId) (value : Literal) : BuildM Unit := do
  let _ ← port id portId
  putNode id ((← node id).updatePort portId fun port => { port with default := some value })

/-- The input at a position; disabled ones count. -/
def inputAt (id : NodeId) (position : Nat) : BuildM PortId := do
  let node ← node id
  match node.inputs[position]? with
  | some port => return port.id
  | none => throw (.argumentShape ("input " ++ toString position)
      (.missingInput node.name node.inputs.length))

/-- Inputs that are enabled, in order. -/
def enabledInputs (id : NodeId) : BuildM (List PortId) := do
  return (← node id).enabledInputs.map Port.id

/-- The first enabled input with a name. -/
def inputNamed (id : NodeId) (name : String) : BuildM PortId := do
  let node ← node id
  match node.enabledInputs.find? fun port => port.name = name with
  | some port => return port.id
  | none => throw (.argumentShape (snakeCase name) (.noEnabledInput node.name name))

/-- The value that a port of the active graph gives. -/
def expr (id : NodeId) (portId : PortId) : BuildM Expr := do
  let graph ← active
  let port ← port id portId
  return { graph, node := id, port := portId, type := port.type }

/-- The output at a position; disabled ones count. -/
def outputAt (id : NodeId) (position : Nat) : BuildM Expr := do
  let node ← node id
  match node.outputs[position]? with
  | some port => expr id port.id
  | none => throw (.unknownOutput node.name (toString position))

/-- The first enabled output. -/
def firstOutput (id : NodeId) : BuildM Expr := do
  let node ← node id
  match node.enabledOutputs with
  | port :: _ => expr id port.id
  | [] => throw (.unknownOutput node.name "0")

/-- Outputs by name; of several with one name the first counts. -/
def namedOutputs (id : NodeId) : List Port → OrderedMap String Expr →
    BuildM (OrderedMap String Expr)
  | [], named => pure named
  | port :: rest, named => do
    let name := snakeCase port.name
    if named.contains name then namedOutputs id rest named
    else namedOutputs id rest (named.insert name (← expr id port.id))

/-- The enabled outputs of a node. -/
def callResult (id : NodeId) : BuildM CallResult := do
  match (← node id).enabledOutputs with
  | [port] => return .single (← expr id port.id)
  | ports => return .named (← namedOutputs id ports ∅)

/-- Link a value into an input. Values of other graphs are refused. -/
def link (source : Expr) (id : NodeId) (portId : PortId) : BuildM Unit := do
  let name ← active
  if source.graph ≠ name then throw (.foreignValue name source.graph)
  let graph ← graph
  match ← draw (graph.connect source.node source.port id portId) with
  | .ok (graph, _) => putGraph graph
  | .error e => throw (.link e)

end Build

/-- Where a constant node keeps its literal. -/
inductive ConstantPlace where
  | property (name : String) (value : PropertyValue)
  | outputDefault

/-- The kind of node that carries a literal. -/
structure ConstantNode where
  kind : String
  place : ConstantPlace

/-- The node that yields a literal. -/
def Literal.constantNode : Literal → Except BuildError ConstantNode
  | .int v => .ok ⟨"FunctionNodeInputInt", .property "integer" (.int v)⟩
  | .bool v => .ok ⟨"FunctionNodeInputBool", .property "boolean" (.bool v)⟩
  | .text v => .ok ⟨"FunctionNodeInputString", .property "string" (.string v)⟩
  | .vector x y z => .ok ⟨"FunctionNodeInputVector", .property "vector" (.vector x y z)⟩
  | .float _ => .ok ⟨"ShaderNodeValue", .outputDefault⟩
  | .color r g b a => .error (.unrepresentable (.color r g b a))

namespace Build

/-- A literal as the output of a constant node. -/
def constant (session : Session) (value : Literal) : BuildM Expr := do
  let carrier ← ofExcept value.constantNode
  let id ← addNode session carrier.kind
  match carrier.place with
  | .property name property => setProperty id name property
  | .outputDefault =>
    let output ← outputAt id 0
    setDefault id output.port value
  outputAt id 0

/-- Bind a literal to an input: as its default if the socket holds it, else by a constant node. -/
def bindLiteral (session : Session) (value : Literal) (id : NodeId) (portId : PortId) :
    BuildM Unit := do
  let port ← port id portId
  match port.type.coerce? value with
  | some default => setDefault id portId default
  | none =>
    let source ← constant session value
    link source id portId

/-- Link a node output, or bind a literal. -/
def bindOperand (session : Session) (operand : Operand) (id : NodeId) (portId : PortId) :
    BuildM Unit :=
  match operand with
  | .expr source => link source id portId
  | .literal value => bindLiteral session value id portId

/-- The value of an operand as a node output. -/
def operandExpr (session : Session) : Operand → BuildM Expr
  | .expr source => pure source
  | .literal value => constant session value

end Build

end NodeScript

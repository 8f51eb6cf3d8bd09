import NodeScript.Node.Kind

/-!
# Nodes

A node is made from a kind: its ports get identities of their own and its properties start at their
defaults. Which ports are enabled follows from the properties.
-/

namespace NodeScript

/-- A node with its ports and properties. -/
structure Node where
  id : NodeId
  kind : String
  name : String
  role : Role
  position : Single × Single := (0, 0)
  width : Single := 140
  inputs : List Port
  outputs : List Port
  properties : List Property
  /-- The exit that a zone entry belongs to. -/
  pairedOutput : Option NodeId := none

namespace Node

/-- Value of a property. -/
def property? (node : Node) (name : String) : Option PropertyValue :=
  (node.properties.find? fun p => p.decl.name = name).map Property.value

/-- The graph a group node stands for. -/
def graph? (node : Node) : Option String := (node.property? graphProperty).bind PropertyValue.graph?

/-- The port of the identity. -/
def port? (node : Node) (id : PortId) : Option Port :=
  (node.inputs.find? fun p => p.id = id).or (node.outputs.find? fun p => p.id = id)

/-- Inputs, then outputs. -/
def ports (node : Node) : List Port := node.inputs ++ node.outputs

/-- Inputs that are enabled. -/
def enabledInputs (node : Node) : List Port := node.inputs.filter (·.enabled)

/-- Outputs that are enabled. -/
def enabledOutputs (node : Node) : List Port := node.outputs.filter (·.enabled)

/-- Whether the port is enabled under a node's property cases. -/
def refreshPort (chosen : String → Option String) (port : Port) : Port :=
  match port.enabledWhen with
  | none => port
  | some condition => { port with enabled := condition.holds (chosen condition.property) }

/-- Evaluate the enabling conditions of all ports. -/
def refresh (node : Node) : Node :=
  let chosen name := (node.property? name).bind PropertyValue.chosen?
  { node with
    inputs := node.inputs.map (refreshPort chosen)
    outputs := node.outputs.map (refreshPort chosen) }

/-- A new node of a kind. -/
def ofKind (kind : NodeKind) : StateM Supply Node := do
  let id ← Supply.fresh
  let inputs ← kind.inputs.mapM fun p => p.toSocket.mint
  let outputs ← kind.outputs.mapM fun p => p.toSocket.mint
  let node : Node :=
    { id, inputs, outputs
      kind := kind.id
      name := kind.name
      role := kind.role
      properties := kind.properties.map fun decl => ⟨decl, decl.default⟩ }
  return node.refresh

/-- Change the first element that satisfies a test. -/
def updateFirst {α : Type} (test : α → Bool) (f : α → α) : List α → List α
  | [] => []
  | a :: rest => if test a then f a :: rest else a :: updateFirst test f rest

/-- Assign a property. A rejected value leaves the node as it was. -/
def setProperty (node : Node) (name : String) (value : PropertyValue) :
    Except PropertyError Node :=
  match node.properties.find? fun p => p.decl.name = name with
  | none => .error (.unknown node.name name)
  | some property =>
    if property.decl.accepts value then
      .ok { node with
        properties := updateFirst (fun p => p.decl.name = name)
          (fun p => { p with value }) node.properties }.refresh
    else .error (.invalidValue name value)

/-- Change the port with an identity; inputs come first. -/
def updatePort (node : Node) (id : PortId) (f : Port → Port) : Node :=
  if node.inputs.any fun p => p.id = id then
    { node with inputs := updateFirst (fun p => p.id = id) f node.inputs }
  else { node with outputs := updateFirst (fun p => p.id = id) f node.outputs }

end Node

end NodeScript

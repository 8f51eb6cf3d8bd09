import NodeScript.Catalog.Basic
import NodeScript.Decompile.Piece
import NodeScript.Script.Program

/-!
# Statements for nodes

Names, references and arguments of the statements that rebuild a graph.
-/

namespace NodeScript

open Script

/-- Names of statements: the category of the node's kind with a number. -/
def statementNames (graph : Graph) (catalog : Catalog) :
    List NodeId → List (String × Nat) → List (NodeId × String)
  | [], _ => []
  | id :: rest, counts =>
    match graph.node? id with
    | none => statementNames graph catalog rest counts
    | some node =>
      let slug := match catalog.get? node.kind with
        | some kind => kind.category.slug
        | none => Category.custom.slug
      let count := (counts.lookup slug).getD 0 + 1
      (id, slug ++ toString count) ::
        statementNames graph catalog rest ((slug, count) :: counts)

/-- What references are made with. -/
structure References where
  graph : Graph
  source : NodeId
  names : List (NodeId × String)

namespace References

/-- The value at the start of a link; `none` if no statement makes it. -/
def linkValue? (refs : References) (link : Link) : Option Value := do
  let node ← refs.graph.node? link.fromNode
  let port ← node.port? link.fromPort
  if link.fromNode = refs.source || node.role.isZoneEntry then
    return .name (snakeCase port.name)
  let name ← refs.names.lookup link.fromNode
  if node.enabledOutputs.length = 1 then return .name name
  else return .select name (snakeCase port.name)

/-- The values linked to a port, or else its default. A hidden default counts only if asked for. -/
def portValue? (refs : References) (port : Port) (hidden : Bool) : Option Value :=
  match (refs.graph.linksTo port.id).filterMap refs.linkValue? with
  | [] => if hidden || !port.hideValue then port.default.map Value.literal else none
  | [value] => some value
  | values => some (.list values)

/-- Values from the start of a list as long as there are any. -/
def leading {α β : Type} (f : α → Option β) : List α → List β
  | [] => []
  | a :: rest =>
    match f a with
    | some b => b :: leading f rest
    | none => []

/-- A property as a script writes it. -/
def propertyValue? : PropertyValue → Option Value
  | .bool v => some (.literal (.bool v))
  | .int v => some (.literal (.int v))
  | .float v => some (.literal (.float v))
  | .string v => some (.literal (.text v))
  | .enumeration chosen => some (.literal (.text chosen))
  | .vector x y z => some (.literal (.vector x y z))
  | .graph _ => none

/-- Properties other than the graph of a group. -/
def propertyArguments (node : Node) : List (String × Value) :=
  (node.properties.filter fun property => property.decl.name ≠ graphProperty).filterMap
    fun property => (propertyValue? property.value).map fun value => (property.decl.name, value)

/-- Outputs with a value of their own. -/
def outputArguments (node : Node) : List (String × Value) :=
  node.enabledOutputs.filterMap fun port =>
    port.default.map fun value => (snakeCase port.name, .literal value)

/-- Ports of one name together, in the order of their first. -/
def byName (ports : List Port) : List (String × List Port) :=
  (ports.foldl (fun groups port =>
    let name := snakeCase port.name
    groups.insert name ((groups.get? name).getD [] ++ [port]))
    (∅ : OrderedMap String (List Port))).entries

/-- Several ports of one name share a list, as far as they have values. -/
def inputArgument? (refs : References) (name : String) : List Port → Option (String × Value)
  | [port] => (refs.portValue? port false).map fun value => (name, value)
  | ports =>
    match leading (fun port => refs.portValue? port true) ports with
    | [] => none
    | values => some (name, .list values)

/-- Inputs with a link or a value. -/
def inputArguments (refs : References) (node : Node) : List (String × Value) :=
  (byName node.enabledInputs).filterMap fun (name, ports) => refs.inputArgument? name ports

/-- All arguments of a call. -/
def arguments (refs : References) (node : Node) : List (String × Value) :=
  propertyArguments node ++ outputArguments node ++ refs.inputArguments node

/-- Variable of the node. -/
def target (refs : References) (id : NodeId) : String := (refs.names.lookup id).getD ""

/-- Function that makes a node; a group node is made by the graph it stands for. -/
def functionOf (node : Node) : String := snakeCase (node.graph?.getD node.name)

/-- The call that adds the node. -/
def callStatement? (refs : References) (id : NodeId) : Option Statement := do
  let node ← refs.graph.node? id
  return .call (refs.target id) (functionOf node) (refs.arguments node)

/-- Ports of the zone's items. -/
def items (ports : List Port) : List Port := ports.filter fun port => port.zoneItem

/-- Which zone the entry opens. -/
def zoneKind (entry : Node) : ZoneKind :=
  if entry.role = .simulationInput then .simulation else .repetition

/-- A port as a zone item. -/
def itemParameter (port : Port) : Parameter :=
  { name := snakeCase port.name, typeName := port.type.typeName, default := none }

/-- The zone as a function. -/
def zoneStatement? (refs : References) (span : Span) (body : List Statement) :
    Option Statement := do
  let entry ← refs.graph.node? span.entry
  let exit ← refs.graph.node? span.exit
  let args := entry.enabledInputs.filterMap fun port =>
    (refs.portValue? port !port.zoneItem).map fun value => (snakeCase port.name, value)
  let next := leading (fun port => refs.portValue? port false) (items exit.inputs)
  return .zone (refs.target span.exit) (zoneKind entry) ((items entry.inputs).map itemParameter)
    args body next

mutual

/-- The statement of a piece. -/
def statement? (refs : References) : Piece → Option Statement
  | .call id => refs.callStatement? id
  | .zone span body => refs.zoneStatement? span (statements refs body)

/-- The statements of pieces, in order. -/
def statements (refs : References) : List Piece → List Statement
  | [] => []
  | piece :: rest => (statement? refs piece).toList ++ statements refs rest

end

/-- Ports of a call whose links are looked at, in order. -/
def inputPorts (refs : References) (node : Node) : List Port :=
  (byName node.enabledInputs).flatMap fun (_, ports) =>
    match ports with
    | [port] => [port]
    | ports =>
      let count := (leading (fun port => refs.portValue? port true) ports).length
      ports.take (count + 1)

/-- Ports of a zone whose links are looked at, in order. -/
def zonePorts (refs : References) (entry exit : Node) : List Port :=
  let ends := items exit.inputs
  let count := (leading (fun port => refs.portValue? port false) ends).length
  entry.enabledInputs ++ ends.take (count + 1)

mutual

/-- Ports whose links the statement needs. -/
def examined (refs : References) : Piece → List Port
  | .call id =>
    match refs.graph.node? id with
    | some node => refs.inputPorts node
    | none => []
  | .zone span body =>
    examinedAll refs body ++
      match refs.graph.node? span.entry, refs.graph.node? span.exit with
      | some entry, some exit => refs.zonePorts entry exit
      | _, _ => []

/-- Ports whose links the statements need. -/
def examinedAll (refs : References) : List Piece → List Port
  | [] => []
  | piece :: rest => examined refs piece ++ examinedAll refs rest

end

/-- A link that starts at a node without a statement. -/
def linkWarning? (refs : References) (link : Link) : Option Warning := do
  let node ← refs.graph.node? link.fromNode
  let _ ← node.port? link.fromPort
  if link.fromNode = refs.source || node.role.isZoneEntry then none
  else if (refs.names.lookup link.fromNode).isSome then none
  else return .unreachableSource node.name

/-- Links to the port that are left out. -/
def portWarnings (refs : References) (port : Port) : List Warning :=
  (refs.graph.linksTo port.id).filterMap refs.linkWarning?

end References

end NodeScript

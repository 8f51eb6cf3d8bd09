import NodeScript.Build.State

/-!
# Calls

A call makes a node and binds arguments to it: the properties first, then the enabled inputs by
name, then the defaults of outputs. What is left over is noted and ignored.
-/

namespace NodeScript

/-- Enabled inputs of one name and type. -/
structure PortGroup where
  name : String
  type : SocketType
  ports : List PortId
  /-- Whether one of them takes any number of links. -/
  multiInput : Bool

namespace PortGroup

/-- Put a port into the group of its name and type. -/
def add (groups : List PortGroup) (port : Port) : List PortGroup :=
  let name := snakeCase port.name
  let same (group : PortGroup) : Bool := group.name = name && group.type = port.type
  if groups.any same then
    groups.map fun group =>
      if same group then
        { group with
          ports := group.ports ++ [port.id], multiInput := group.multiInput || port.multiInput }
      else group
  else groups ++ [⟨name, port.type, [port.id], port.multiInput⟩]

/-- Groups in the order of their first port. -/
def ofPorts (ports : List Port) : List PortGroup := ports.foldl add []

end PortGroup

/-- The value of a declared property that an argument stands for. -/
def PropertyDecl.valueOf (decl : PropertyDecl) (argument : Argument) :
    Except BuildError PropertyValue :=
  let value : Option PropertyValue := match decl.kind, argument with
    | .enumeration _, .choice chosen | .enumeration _, .literal (.text chosen) =>
      some (.enumeration chosen)
    | .int, .literal (.int v) => some (.int v)
    | .float, .literal (.float v) => some (.float v)
    | .float, .literal (.int v) => some (.float (Single.ofInt v.toInt))
    | .bool, .literal (.bool v) => some (.bool v)
    | .string, .choice text | .string, .literal (.text text) => some (.string text)
    | .graph, .choice name | .graph, .literal (.text name) => some (.graph name)
    | .vector, argument =>
      match argument.literal? with
      | some (.vector x y z) => some (.vector x y z)
      | _ => none
    | _, _ => none
  match value with
  | some value => .ok value
  | none => .error (.argumentShape decl.name (.notPropertyOf decl.kind))

namespace Build

/-- Link the first argument to the first input; gives that input. -/
def bindPrimary (id : NodeId) : Option Expr → BuildM (Option PortId)
  | none => pure none
  | some source => do
    let port ← inputAt id 0
    link source id port
    return some port

/-- Assign the properties that have an argument, in the order of declaration; gives the arguments
that remain. -/
def bindProperties (id : NodeId) : List PropertyDecl → Arguments → BuildM Arguments
  | [], arguments => pure arguments
  | decl :: rest, arguments =>
    match arguments.get? decl.name with
    | none => bindProperties id rest arguments
    | some argument => do
      let value ← ofExcept (decl.valueOf argument)
      setProperty id decl.name value
      bindProperties id rest (arguments.erase decl.name)

/-- Bind one plain argument to one input. -/
def bindPlain (session : Session) (name : String) (id : NodeId) (port : PortId) :
    Argument → BuildM Unit
  | .expr source => link source id port
  | .group group => throw (.argumentShape name (.groupInSingle group.name))
  | argument =>
    match argument.literal? with
    | some value => bindLiteral session value id port
    | none => throw (.argumentShape name .notAValue)

/-- Bind an argument to one input. A list of node outputs is linked one by one. -/
def bindArgument (session : Session) (name : String) (id : NodeId) (port : PortId)
    (argument : Argument) : BuildM Unit :=
  match argument with
  | .list items =>
    if argument.isExprList then items.forM (bindPlain session name id port)
    else bindPlain session name id port argument
  | _ => bindPlain session name id port argument

/-- Bind an argument to a group of inputs: a list is shared out over several inputs, anything else
goes to all of them. -/
def bindGroup (session : Session) (id : NodeId) (group : PortGroup) (argument : Argument) :
    BuildM Unit :=
  let toAll := group.ports.forM fun port => bindArgument session group.name id port argument
  match argument with
  | .list items =>
    if group.multiInput && argument.isExprList then
      group.ports.forM fun port => items.forM (bindArgument session group.name id port)
    else if 1 < group.ports.length then
      if group.ports.length < items.length then
        throw (.argumentArity group.name group.ports.length items.length)
      else if items.isEmpty then toAll
      else (items.zip group.ports).forM fun (item, port) =>
        bindArgument session group.name id port item
    else toAll
  | _ => toAll

/-- Bind the groups that have an argument. -/
def bindGroups (session : Session) (id : NodeId) (arguments : Arguments) :
    List PortGroup → BuildM Unit
  | [] => pure ()
  | group :: rest => do
    match arguments.get? group.name with
    | some argument => bindGroup session id group argument
    | none => pure ()
    bindGroups session id arguments rest

/-- Give an output that has a default another one; tells whether there is such an output. -/
def bindOutputDefault (id : NodeId) (name : String) (argument : Argument) : BuildM Bool := do
  let found := (← node id).enabledOutputs.find? fun port =>
    port.default.isSome && snakeCase port.name = name
  match found with
  | none => return false
  | some port =>
    match argument.literal?.bind port.type.coerce? with
    | none => throw (.argumentShape name (.notLiteralOf port.type))
    | some value =>
      setDefault id port.id value
      return true

/-- Use arguments as output defaults, and note those that cannot be used. -/
def bindRest (id : NodeId) : List (String × Argument) → BuildM Unit
  | [] => pure ()
  | (name, argument) :: rest => do
    if !(← bindOutputDefault id name argument) then
      warn (.unknownArgument name (← node id).kind)
    bindRest id rest

/-- Bind arguments to a node; gives its outputs. -/
def bindArguments (session : Session) (id : NodeId) (primary : Option Expr)
    (arguments : Arguments) : BuildM CallResult := do
  let skipped ← bindPrimary id primary
  let decls := (← node id).properties.map Property.decl
  let arguments ← bindProperties id decls (spreadGroups arguments)
  let inputs := (← node id).enabledInputs.filter fun port => some port.id ≠ skipped
  let groups := PortGroup.ofPorts inputs
  bindGroups session id arguments groups
  bindRest id (arguments.entries.filter fun (name, _) =>
    !groups.any fun group => group.name = name)
  callResult id

/-- A new node of a kind with arguments. -/
def lower (session : Session) (kind : String) (primary : Option Expr) (arguments : Arguments) :
    BuildM CallResult := do
  let id ← addNode session kind
  bindArguments session id primary arguments

/-- A new group node for a graph of the store. -/
def callGraph (session : Session) (name : String) (primary : Option Expr)
    (arguments : Arguments) : BuildM CallResult := do
  if (← active) = name then throw (.recursiveGroup name)
  let some target := (← get).store.get? name | throw (.unknownGraph name)
  let interface := target.interface
  let id ← addNode session groupKind
  setProperty id graphProperty (.graph name)
  let inputs ← draw (interface.inputSockets.mapM Socket.mint)
  let outputs ← draw (interface.outputSockets.mapM Socket.mint)
  putNode id { ← node id with name, inputs, outputs }
  bindArguments session id primary arguments

/-- Call a function of the catalog, or a graph by its function name. -/
def call (session : Session) (function : String) (primary : Option Expr)
    (arguments : Arguments) : BuildM CallResult := do
  match session.functions.get? function with
  | some entry => lower session entry.kind primary arguments
  | none =>
    let graphs := (← get).store.graphs.values
    match graphs.find? fun graph => snakeCase graph.name = function with
    | some graph => callGraph session graph.name primary arguments
    | none => throw (.unknownFunction function)

end Build

end NodeScript

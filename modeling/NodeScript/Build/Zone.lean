import NodeScript.Build.Call
import NodeScript.Build.Signature
import NodeScript.Script.Program

/-!
# Building zones

A zone repeats a step over some state. The step sees the state as outputs of the entry and gives its
next values to the exit.
-/

namespace NodeScript

/-- Kind that opens the zone. -/
def Script.ZoneKind.entryKind : Script.ZoneKind → String
  | .repetition => "GeometryNodeRepeatInput"
  | .simulation => "GeometryNodeSimulationInput"

/-- Kind that closes the zone. -/
def Script.ZoneKind.exitKind : Script.ZoneKind → String
  | .repetition => "GeometryNodeRepeatOutput"
  | .simulation => "GeometryNodeSimulationOutput"

/-- Output of an entry that tells the time since the last step. -/
def deltaTimeOutput : String := "Delta Time"

namespace Build

/-- Types of the state's items. -/
def resolveItems (classes : SocketClasses) :
    List Param → Except BuildError (List (String × SocketType))
  | [] => .ok []
  | item :: rest => do
    let some type := classes.resolve? item.typeName
      | throw (.configuration item.name (.unknownType item.typeName))
    return (titleCase item.name, type) :: (← resolveItems classes rest)

/-- Keep the graph, or fail with the error. -/
def liftZone (graph : Except ZoneError Graph) : BuildM Unit :=
  match graph with
  | .ok graph => putGraph graph
  | .error e => throw (.zone e)

/-- Add items in order, up to the first that fails. -/
def addItems (entry : NodeId) : List (String × SocketType) → BuildM Unit
  | [] => pure ()
  | (name, type) :: rest => do
    let graph ← graph
    let (graph, error) ← draw (graph.addZoneItem entry name type)
    putGraph graph
    match error with
    | some e => throw (.zone e)
    | none => addItems entry rest

/-- The two ends of a new zone with its items. -/
def createZone (session : Session) (kind : Script.ZoneKind) (items : List Param) :
    BuildM (NodeId × NodeId) := do
  let resolved ← ofExcept (resolveItems session.classes items)
  let entry ← addNode session kind.entryKind
  let exit ← addNode session kind.exitKind
  liftZone ((← graph).pairZone entry exit)
  liftZone ((← graph).clearZoneItems entry)
  addItems entry resolved
  return (entry, exit)

/-- Inputs that carry the zone's state. -/
def itemInputs (id : NodeId) : BuildM (List PortId) := do
  return ((← node id).inputs.filter fun port => port.zoneItem).map Port.id

/-- Outputs that carry the zone's state. -/
def itemOutputs (id : NodeId) : BuildM (List PortId) := do
  return ((← node id).outputs.filter fun port => port.zoneItem).map Port.id

/-- The value that an argument gives an item at the start. -/
def initialOperand (name : String) : Argument → Except BuildError Operand
  | .expr source => .ok (.expr source)
  | argument =>
    match argument.literal? with
    | some value => .ok (.literal value)
    | none => .error (.argumentShape name .notAValue)

/-- Bind the items that have an initial value; gives the arguments that remain. -/
def bindInitial (session : Session) (entry : NodeId) :
    List (Param × PortId) → Arguments → BuildM Arguments
  | [], initial => pure initial
  | (item, port) :: rest, initial =>
    match initial.get? item.name with
    | none => bindInitial session entry rest initial
    | some argument => do
      let operand ← ofExcept (initialOperand item.name argument)
      bindOperand session operand entry port
      bindInitial session entry rest (initial.erase item.name)

/-- The time step, if the entry has one. -/
def timeInput (entry : NodeId) : BuildM Inputs := do
  let found := (← node entry).outputs.find? fun port =>
    !port.zoneItem && port.name = deltaTimeOutput
  match found with
  | some port => return (∅ : Inputs).insert Script.deltaTime (.value (← expr entry port.id))
  | none => return ∅

/-- Name the state that a step reads. -/
def stateInputs (entry : NodeId) : List (Param × PortId) → Inputs → BuildM Inputs
  | [], inputs => pure inputs
  | (item, port) :: rest, inputs => do
    stateInputs entry rest (inputs.insert item.name (.value (← expr entry port)))

/-- Outputs of an exit by the items' names. -/
def zoneOutputs (exit : NodeId) :
    List (Param × PortId) → OrderedMap String Expr → BuildM (OrderedMap String Expr)
  | [], named => pure named
  | (item, port) :: rest, named => do
    zoneOutputs exit rest (named.insert (snakeCase item.name) (← expr exit port))

/-- Bind the initial state, run the step and bind the next state. -/
def runZone (session : Session) (entry exit : NodeId) (items : List Param) (initial : Arguments)
    (step : Inputs → BuildM (List Operand)) : BuildM CallResult := do
  let starts ← itemInputs entry
  let unused ← bindInitial session entry (items.zip starts) initial
  unused.keys.forM fun name => warn (.undeclaredItem name)
  let time ← timeInput entry
  let states ← itemOutputs entry
  let inputs ← stateInputs entry (items.zip states) time
  let next ← step inputs
  let ends ← itemInputs exit
  if ends.length < next.length then
    throw (.argumentArity "zone step" ends.length next.length)
  (next.zip ends).forM fun (value, port) => bindOperand session value exit port
  match ← itemOutputs exit with
  | [port] => return .single (← expr exit port)
  | outputs => return .named (← zoneOutputs exit (items.zip outputs) ∅)

/-- A zone that runs a step a number of times. -/
def repetition (session : Session) (iterations : Operand) (items : List Param)
    (initial : Arguments) (step : Inputs → BuildM (List Operand)) : BuildM CallResult := do
  let (entry, exit) ← createZone session .repetition items
  let port ← inputNamed entry "Iterations"
  bindOperand session iterations entry port
  runZone session entry exit items initial step

/-- A zone that runs a step once a frame. The step also gets the time since the last one. -/
def simulation (session : Session) (items : List Param) (initial : Arguments)
    (step : Inputs → BuildM (List Operand)) : BuildM CallResult := do
  let (entry, exit) ← createZone session .simulation items
  runZone session entry exit items initial step

end Build

end NodeScript

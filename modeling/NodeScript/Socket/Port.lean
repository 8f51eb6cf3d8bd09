import NodeScript.Identity
import NodeScript.Socket.Type

/-!
# Ports

A socket is a named, typed place for a value on one side of a node; a port is a socket with an
identity. Some sockets are enabled only while a property of their node has a suitable case.
-/

namespace NodeScript

/-- Side of a node. -/
inductive Direction where
  | input
  | output
deriving DecidableEq, Repr

/-- When a port is enabled, by the case of an enumerated property. -/
inductive PortCondition where
  | oneOf (property : String) (cases : List String)
  | noneOf (property : String) (cases : List String)
deriving DecidableEq, Repr

namespace PortCondition

/-- The property that is asked. -/
def property : PortCondition → String
  | .oneOf property _ => property
  | .noneOf property _ => property

/-- Evaluation at the property's case; a missing property has no case. -/
def holds : PortCondition → Option String → Bool
  | .oneOf _ cases, some chosen => cases.contains chosen
  | .oneOf _ _, none => false
  | .noneOf _ cases, some chosen => !cases.contains chosen
  | .noneOf _ _, none => true

end PortCondition

/-- A port as a node kind declares it. -/
structure Socket where
  name : String
  direction : Direction
  type : SocketType
  default : Option Literal := none
  /-- The default is not shown as a value of its own. -/
  hideValue : Bool := false
  enabled : Bool := true
  /-- Takes any number of links. -/
  multiInput : Bool := false
  enabledWhen : Option PortCondition := none
  /-- Belongs to the state of a zone. -/
  zoneItem : Bool := false
deriving DecidableEq, Repr

/-- A socket of a node. -/
structure Port extends Socket where
  id : PortId
deriving DecidableEq, Repr

namespace Socket

def input (name : String) (type : SocketType) (default : Option Literal := none) : Socket :=
  { name, direction := .input, type, default }

def output (name : String) (type : SocketType) (default : Option Literal := none) : Socket :=
  { name, direction := .output, type, default }

/-- Do not show the value. -/
def hidden (socket : Socket) : Socket := { socket with hideValue := true }

/-- Take any number of links. -/
def multi (socket : Socket) : Socket := { socket with multiInput := true }

/-- Enable the port under a condition. -/
def onlyWhen (socket : Socket) (condition : PortCondition) : Socket :=
  { socket with enabledWhen := some condition }

/-- Links run between opposite directions, from the output's type to the input's. -/
def canConnect (a b : Socket) : Bool :=
  match a.direction, b.direction with
  | .output, .input => a.type.connectsTo b.type
  | .input, .output => b.type.connectsTo a.type
  | _, _ => false

/-- A port of this shape with a new identity. -/
def mint (socket : Socket) : StateM Supply Port := do
  let id ← Supply.fresh
  return { socket with id }

end Socket

end NodeScript

import NodeScript.Socket.Port

/-!
# Interfaces

The ordered inputs and outputs that a graph shows to the outside.
-/

namespace NodeScript

/-- What is declared about an input or output of a graph. -/
structure Declaration where
  name : String
  type : SocketType
  default : Option Literal := none
  lower : Option Single := none
  upper : Option Single := none
  subtype : Option String := none
  tooltip : String := ""
  hideInModifier : Bool := false
deriving DecidableEq, Repr

/-- A declaration with an identity that survives changes of its data. -/
structure Entry extends Declaration where
  id : EntryId
deriving DecidableEq, Repr

/-- An entry with a new identity. -/
def Declaration.mint (declaration : Declaration) : StateM Supply Entry := do
  let id ← Supply.fresh
  return { declaration with id }

/-- The socket that a node shows for a declaration. -/
def Declaration.socket (declaration : Declaration) (direction : Direction) : Socket where
  name := declaration.name
  direction := direction
  type := declaration.type
  default := declaration.default

/-- What a graph takes and gives. -/
structure Interface where
  inputs : List Entry := []
  outputs : List Entry := []
deriving DecidableEq, Repr

namespace Interface

/-- Inputs as sockets. -/
def inputSockets (interface : Interface) : List Socket :=
  interface.inputs.map fun entry => entry.socket .input

/-- Outputs as sockets. -/
def outputSockets (interface : Interface) : List Socket :=
  interface.outputs.map fun entry => entry.socket .output

end Interface

end NodeScript

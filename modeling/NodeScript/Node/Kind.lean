import NodeScript.Node.Property
import NodeScript.Socket.Port

/-!
# Node kinds

A kind describes the nodes that can be made from it. It is written down over plain sockets; in a
catalog its sockets are ports.
-/

namespace NodeScript

/-- Where a menu lists the node. -/
inductive Category where
  | input
  | output
  | geometry
  | mesh
  | curve
  | point
  | instances
  | attributes
  | math
  | utilities
  | zone
  | group
  | custom
deriving DecidableEq, Repr

/-- Every category. -/
def Category.all : List Category :=
  [.input, .output, .geometry, .mesh, .curve, .point, .instances, .attributes, .math, .utilities,
    .zone, .group, .custom]

/-- Stem of statement names and of function paths. -/
def Category.slug : Category → String
  | .input => "input"
  | .output => "output"
  | .geometry => "geometry"
  | .mesh => "mesh"
  | .curve => "curve"
  | .point => "point"
  | .instances => "instances"
  | .attributes => "attribute"
  | .math => "math"
  | .utilities => "utilities"
  | .zone => "zone"
  | .group => "group"
  | .custom => "custom"

/-- What a node is to its graph. -/
inductive Role where
  | regular
  | groupInput
  | groupOutput
  | group
  | repeatInput
  | repeatOutput
  | simulationInput
  | simulationOutput
deriving DecidableEq, Repr

namespace Role

/-- Whether the node opens a zone. -/
def isZoneEntry : Role → Bool
  | .repeatInput | .simulationInput => true
  | _ => false

/-- Whether the node closes a zone. -/
def isZoneExit : Role → Bool
  | .repeatOutput | .simulationOutput => true
  | _ => false

/-- Whether the node shows the interface. -/
def isBoundary : Role → Bool
  | .groupInput | .groupOutput => true
  | _ => false

/-- Whether an entry and an exit make a zone together. -/
def pairs : Role → Role → Bool
  | .repeatInput, .repeatOutput | .simulationInput, .simulationOutput => true
  | _, _ => false

end Role

/-- A description of nodes over a type of sockets. -/
structure Kind (π : Type) where
  id : String
  name : String
  category : Category
  menuPath : Option String := none
  role : Role := .regular
  description : String := ""
  inputs : List π := []
  outputs : List π := []
  properties : List PropertyDecl := []

/-- A kind as it is written down. -/
abbrev KindSpec := Kind Socket

/-- A kind of a catalog. -/
abbrev NodeKind := Kind Port

/-- Give every socket of a kind an identity. -/
def Kind.mint (spec : KindSpec) : StateM Supply NodeKind := do
  let inputs ← spec.inputs.mapM Socket.mint
  let outputs ← spec.outputs.mapM Socket.mint
  return { spec with inputs, outputs }

/-- Kinds that the builder itself places. -/
def groupInputKind : String := "NodeGroupInput"

def groupOutputKind : String := "NodeGroupOutput"

def groupKind : String := "GeometryNodeGroup"

/-- Property of a group node that names the graph it stands for. -/
def graphProperty : String := "node_tree"

end NodeScript

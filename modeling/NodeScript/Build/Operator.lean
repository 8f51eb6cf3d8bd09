import NodeScript.Build.Call

/-!
# Operators

Operations on values that make the nodes which compute them.
-/

namespace NodeScript

/-- Arithmetic on numbers and vectors. -/
inductive MathOp where
  | add
  | subtract
  | multiply
  | divide
  | modulo
deriving DecidableEq, Repr

/-- Its case of the math node. -/
def MathOp.label : MathOp → String
  | .add => "ADD"
  | .subtract => "SUBTRACT"
  | .multiply => "MULTIPLY"
  | .divide => "DIVIDE"
  | .modulo => "MODULO"

/-- Comparison of two values. -/
inductive CompareOp where
  | lessThan
  | lessEqual
  | greaterThan
  | greaterEqual
  | equal
  | notEqual
deriving DecidableEq, Repr

/-- Its case of the compare node. -/
def CompareOp.label : CompareOp → String
  | .lessThan => "LESS_THAN"
  | .lessEqual => "LESS_EQUAL"
  | .greaterThan => "GREATER_THAN"
  | .greaterEqual => "GREATER_EQUAL"
  | .equal => "EQUAL"
  | .notEqual => "NOT_EQUAL"

/-- Connective of two booleans. -/
inductive BooleanOp where
  | and
  | or
  | not
  | nand
  | nor
  | xnor
  | xor
  | imply
  | nimply
deriving DecidableEq, Repr

/-- Its case of the boolean node. -/
def BooleanOp.label : BooleanOp → String
  | .and => "AND"
  | .or => "OR"
  | .not => "NOT"
  | .nand => "NAND"
  | .nor => "NOR"
  | .xnor => "XNOR"
  | .xor => "XOR"
  | .imply => "IMPLY"
  | .nimply => "NIMPLY"

/-- Axis of a vector. -/
inductive Axis where
  | x
  | y
  | z
deriving DecidableEq, Repr

def Axis.label : Axis → String
  | .x => "x"
  | .y => "y"
  | .z => "z"

/-- Place of an axis among the outputs. -/
def Axis.position : Axis → Nat
  | .x => 0
  | .y => 1
  | .z => 2

/-- How the element to sample is found. -/
inductive SampleMode where
  | byIndex
  | nearestPoint
  | nearestSurface
deriving DecidableEq, Repr

/-- Whether the operand is a vector. -/
def Operand.isVector : Operand → Bool
  | .expr source => source.type.isVector
  | .literal (.vector ..) => true
  | .literal _ => false

/-- Data type of fields with values of a type. -/
def SocketType.fieldType? : SocketType → Option String
  | .float => some "FLOAT"
  | .int => some "INT"
  | .vector => some "FLOAT_VECTOR"
  | .color => some "FLOAT_COLOR"
  | .bool => some "BOOLEAN"
  | _ => none

/-- Data type under which values of a type are compared. -/
def SocketType.comparedType? : SocketType → Option String
  | .bool => some "FLOAT"
  | .float => some "FLOAT"
  | .int => some "INT"
  | .vector => some "VECTOR"
  | .string => some "STRING"
  | .color => some "RGBA"
  | _ => none

namespace Build

/-- Choose a case of a property. -/
def setChoice (id : NodeId) (name chosen : String) : BuildM Unit :=
  setProperty id name (.enumeration chosen)

/-- A math node for two operands; a vector on either side makes it vector math. -/
def mathNode (session : Session) (op : MathOp) (self : Expr) (other : Operand) :
    BuildM NodeId := do
  let kind :=
    if self.type.isVector || other.isVector then "ShaderNodeVectorMath" else "ShaderNodeMath"
  let id ← addNode session kind
  setChoice id "operation" op.label
  return id

/-- `self op other`. -/
def arithmetic (session : Session) (op : MathOp) (self : Expr) (other : Operand) :
    BuildM Expr := do
  let id ← mathNode session op self other
  let first ← inputAt id 0
  let second ← inputAt id 1
  link self id first
  bindOperand session other id second
  firstOutput id

/-- `other op self`; a literal is carried by a constant node. -/
def reflected (session : Session) (op : MathOp) (self : Expr) (other : Operand) :
    BuildM Expr := do
  let id ← mathNode session op self other
  let first ← inputAt id 0
  let second ← inputAt id 1
  let source ← operandExpr session other
  link source id first
  link self id second
  firstOutput id

/-- A boolean operation with up to two operands. -/
def boolean (session : Session) (op : BooleanOp) (self : Expr) (other : Option Operand) :
    BuildM Expr := do
  let id ← addNode session "FunctionNodeBooleanMath"
  setChoice id "operation" op.label
  let inputs ← enabledInputs id
  let some first := inputs[0]? | throw (.invalidAccessor op.label self.type)
  link self id first
  match other with
  | none => pure ()
  | some other =>
    let some second := inputs[1]? | throw (.invalidAccessor op.label self.type)
    bindOperand session other id second
  firstOutput id

/-- A comparison by a compare node. -/
def compareNode (session : Session) (op : CompareOp) (self : Expr) (other : Operand) :
    BuildM Expr := do
  let some dataType := self.type.comparedType? | throw (.invalidAccessor op.label self.type)
  let id ← addNode session "FunctionNodeCompare"
  setChoice id "data_type" dataType
  setChoice id "operation" op.label
  match ← enabledInputs id with
  | a :: b :: _ =>
    link self id a
    bindOperand session other id b
    firstOutput id
  | _ => throw (.invalidAccessor op.label self.type)

/-- `self op other`; booleans are equal by boolean math. -/
def compare (session : Session) (op : CompareOp) (self : Expr) (other : Operand) :
    BuildM Expr :=
  match self.type, op with
  | .bool, .equal => boolean session .xnor self (some other)
  | .bool, .notEqual => boolean session .xor self (some other)
  | _, _ => compareNode session op self other

/-- A component of a vector. -/
def component (session : Session) (axis : Axis) (self : Expr) : BuildM Expr := do
  if !self.type.isVector then throw (.invalidAccessor axis.label self.type)
  let id ← addNode session "ShaderNodeSeparateXYZ"
  let input ← inputAt id 0
  link self id input
  outputAt id axis.position

/-- Kind of the node that gives the index. -/
def indexKind : String := "GeometryNodeInputIndex"

/-- Kind of the node that gives the position. -/
def positionKind : String := "GeometryNodeInputPosition"

/-- Output of a new field node. -/
def field (session : Session) (kind : String) : BuildM Expr := do
  let id ← addNode session kind
  firstOutput id

/-- An operand, or a new field in its place. -/
def operandOrField (session : Session) (kind : String) : Option Operand → BuildM Operand
  | some operand => pure operand
  | none => do return .expr (← field session kind)

/-- Link or bind a value to the input with a name. -/
def bindNamed (session : Session) (id : NodeId) (name : String) (operand : Operand) :
    BuildM Unit := do
  let input ← inputNamed id name
  bindOperand session operand id input

/-- Choose the domain, if one is given. -/
def setDomain (id : NodeId) : Option String → BuildM Unit
  | some domain => setChoice id "domain" domain
  | none => pure ()

/-- A field sampled at an index. -/
def sampleIndex (session : Session) (self geometry : Expr) (dataType : String) (index : Operand)
    (domain : Option String) : BuildM Expr := do
  let id ← addNode session "GeometryNodeSampleIndex"
  setChoice id "data_type" dataType
  setDomain id domain
  bindNamed session id "Geometry" (.expr geometry)
  bindNamed session id "Value" (.expr self)
  bindNamed session id "Index" index
  firstOutput id

/-- A field sampled on a geometry. Without a key, the index or the position of the elements is
used. -/
def sample (session : Session) (self geometry : Expr) (mode : SampleMode) (key : Option Operand)
    (domain : Option String) : BuildM Expr := do
  let some dataType := self.type.fieldType? | throw (.invalidAccessor "sample" self.type)
  match mode with
  | .byIndex =>
    let index ← operandOrField session indexKind key
    sampleIndex session self geometry dataType index domain
  | .nearestPoint =>
    let position ← operandOrField session positionKind key
    let id ← addNode session "GeometryNodeSampleNearest"
    setDomain id domain
    bindNamed session id "Geometry" (.expr geometry)
    bindNamed session id "Sample Position" position
    let index ← firstOutput id
    sampleIndex session self geometry dataType (.expr index) domain
  | .nearestSurface =>
    let position ← operandOrField session positionKind key
    let id ← addNode session "GeometryNodeSampleNearestSurface"
    setChoice id "data_type" dataType
    bindNamed session id "Mesh" (.expr geometry)
    bindNamed session id "Value" (.expr self)
    bindNamed session id "Sample Position" position
    firstOutput id

/-- Points in the number of an integer, with the index that tells them apart. -/
def iteratePoints (session : Session) (self : Expr) : BuildM (Expr × Expr) := do
  if self.type ≠ .int then throw (.invalidAccessor "iterate" self.type)
  let result ← lower session "GeometryNodePoints" (some self) ∅
  let points ← ofExcept result.only
  let index ← field session indexKind
  return (index, points)

end Build

/-- A named attribute with a data type on a domain. -/
structure Attribute where
  name : String
  dataType : String
  domain : String := "POINT"
deriving DecidableEq, Repr

namespace Attribute

/-- An output of the node that reads the attribute. -/
def lookup (self : Attribute) (session : Session) (output : String) : BuildM Expr := do
  let arguments : Arguments := OrderedMap.ofList
    [("data_type", .choice self.dataType), ("name", .literal (.text self.name))]
  let result ← Build.call session "named_attribute" none arguments
  Build.ofExcept (result.output output)

/-- The field of the attribute's values. -/
def read (self : Attribute) (session : Session) : BuildM Expr :=
  self.lookup session "attribute"

/-- Whether the attribute exists, as a field. -/
def isPresent (self : Attribute) (session : Session) : BuildM Expr :=
  self.lookup session "exists"

/-- Write a value into the attribute of a geometry. -/
def store (self : Attribute) (session : Session) (geometry : Expr) (value : Operand) :
    BuildM Expr := do
  let arguments : Arguments := OrderedMap.ofList
    [("data_type", .choice self.dataType), ("domain", .choice self.domain),
      ("name", .literal (.text self.name)), ("value", .ofOperand value)]
  let result ← Build.call session "store_named_attribute" (some geometry) arguments
  Build.ofExcept result.only

end Attribute

end NodeScript

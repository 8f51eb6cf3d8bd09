import NodeScript.Socket.Literal

/-!
# Properties

Settings of a node that are not sockets: flags, numbers, texts, enumerated cases and references to
graphs.
-/

namespace NodeScript

/-- Values that a property takes. -/
inductive PropertyKind where
  | bool
  | int
  | float
  | string
  | vector
  | enumeration (cases : List String)
  | graph
deriving DecidableEq, Repr

/-- Value of a property. -/
inductive PropertyValue where
  | bool (value : Bool)
  | int (value : Int32)
  | float (value : Single)
  | string (value : String)
  | vector (x y z : Single)
  | enumeration (chosen : String)
  | graph (name : String)
deriving DecidableEq, Repr

/-- A property of a node kind. -/
structure PropertyDecl where
  name : String
  kind : PropertyKind
  default : PropertyValue
deriving DecidableEq, Repr

/-- A property of a node. -/
structure Property where
  decl : PropertyDecl
  value : PropertyValue
deriving DecidableEq, Repr

namespace PropertyKind

/-- Name of the kind. -/
def typeName : PropertyKind → String
  | .bool => "Bool"
  | .int => "Int"
  | .float => "Float"
  | .string => "String"
  | .vector => "Vector"
  | .enumeration _ => "Enum"
  | .graph => "Graph"

/-- Whether a value may be assigned to a property of the kind. -/
def accepts : PropertyKind → PropertyValue → Bool
  | .enumeration cases, .enumeration chosen => cases.contains chosen
  | .bool, .bool _ | .int, .int _ | .float, .float _ | .string, .string _ | .vector, .vector ..
  | .graph, .graph _ => true
  | _, _ => false

end PropertyKind

namespace PropertyValue

/-- The case that is chosen. -/
def chosen? : PropertyValue → Option String
  | .enumeration chosen => some chosen
  | _ => none

/-- The graph that is named. -/
def graph? : PropertyValue → Option String
  | .graph name => some name
  | _ => none

/-- The value with its kind, as messages show it. -/
def describe : PropertyValue → String
  | .bool v => "Bool(" ++ Literal.boolText v ++ ")"
  | .int v => "Int(" ++ Literal.intText v ++ ")"
  | .float v => "Float(" ++ NumberStyle.script.text v ++ ")"
  | .string v => "String(" ++ Text.quoted v ++ ")"
  | .vector x y z => "Vector(" ++ Literal.floatsText [x, y, z] ++ ")"
  | .enumeration chosen => "Enum(" ++ Text.quoted chosen ++ ")"
  | .graph name => "GraphRef(" ++ Text.quoted name ++ ")"

end PropertyValue

namespace PropertyDecl

/-- An enumerated property starts at its first case. -/
def enumeration (name : String) (cases : List String) : PropertyDecl :=
  ⟨name, .enumeration cases, .enumeration (cases.headD "")⟩

/-- Whether the property takes a value. -/
def accepts (decl : PropertyDecl) (value : PropertyValue) : Bool := decl.kind.accepts value

end PropertyDecl

/-- Why a property is not set. -/
inductive PropertyError where
  | unknown (node property : String)
  | invalidValue (property : String) (value : PropertyValue)
deriving DecidableEq, Repr

def PropertyError.message : PropertyError → String
  | .unknown node property => "Node '" ++ node ++ "' has no property '" ++ property ++ "'"
  | .invalidValue property value =>
    "Invalid value " ++ value.describe ++ " for property '" ++ property ++ "'"

end NodeScript

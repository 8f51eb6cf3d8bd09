import NodeScript.Graph.Connect
import NodeScript.Graph.Zone

/-!
# Errors of building
-/

namespace NodeScript

/-- What is wrong with a declared parameter. -/
inductive ParamFault where
  | unnamed
  | declaredTwice
  | untyped
  | unknownType (name : String)
  | defaultMisfit (value : Literal) (type : SocketType)
  | subtypeMisfit (subtype : String) (type : SocketType)
  | defaultNotLiteral (text : String)
deriving DecidableEq, Repr

/-- What is wrong with the parameter. -/
def ParamFault.reason : ParamFault → String
  | .unnamed => "parameter has no name"
  | .declaredTwice => "declared twice"
  | .untyped => "no type specified"
  | .unknownType name => "unknown type '" ++ name ++ "'"
  | .defaultMisfit value type =>
    "default " ++ value.describe ++ " does not fit " ++ type.typeName
  | .subtypeMisfit subtype type =>
    "subtype '" ++ subtype ++ "' is not available on " ++ type.typeName
  | .defaultNotLiteral text => "default " ++ text ++ " is not a literal"

/-- What is wrong with an argument. -/
inductive ArgumentFault where
  | severalOutputs
  | notAValue
  | notSingle
  | groupInSingle (group : String)
  | notLiteralOf (type : SocketType)
  | notPropertyOf (kind : PropertyKind)
  | missingInput (node : String) (count : Nat)
  | noEnabledInput (node name : String)
deriving DecidableEq, Repr

/-- What is wrong with the argument. -/
def ArgumentFault.reason : ArgumentFault → String
  | .severalOutputs => "call has several outputs, select one by name"
  | .notAValue => "expected a node output or a literal"
  | .notSingle => "expected a single value"
  | .groupInSingle group => "group '" ++ group ++ "' cannot be bound to a single input"
  | .notLiteralOf type => "expected a " ++ type.typeName ++ " literal"
  | .notPropertyOf kind => "expected a " ++ kind.typeName ++ " value"
  | .missingInput node count => "'" ++ node ++ "' has only " ++ toString count ++ " inputs"
  | .noEnabledInput node name => "'" ++ node ++ "' has no enabled input '" ++ name ++ "'"

/-- Why a build stops. -/
inductive BuildError where
  | configuration (param : String) (fault : ParamFault)
  | unrepresentable (value : Literal)
  | invalidAccessor (operation : String) (type : SocketType)
  | unknownKind (id : String)
  | unknownFunction (name : String)
  | unknownGraph (name : String)
  | unknownName (name : String)
  | unknownOutput (node output : String)
  | recursiveGroup (graph : String)
  | argumentShape (argument : String) (fault : ArgumentFault)
  | argumentArity (argument : String) (expected found : Nat)
  | foreignValue (expected found : String)
  | noActiveGraph
  | link (error : LinkError)
  | property (error : PropertyError)
  | zone (error : ZoneError)
deriving DecidableEq, Repr

def BuildError.message : BuildError → String
  | .configuration param fault => "Invalid parameter '" ++ param ++ "': " ++ fault.reason
  | .unrepresentable value => "'" ++ value.describe ++ "' cannot be expressed as a node"
  | .invalidAccessor operation type =>
    "'" ++ operation ++ "' is not available on " ++ type.typeName ++ " values"
  | .unknownKind id => "Unknown node kind: " ++ id
  | .unknownFunction name => "Unknown function: " ++ name
  | .unknownGraph name => "Unknown graph: " ++ name
  | .unknownName name => "Unknown name: " ++ name
  | .unknownOutput node output => "'" ++ node ++ "' has no output '" ++ output ++ "'"
  | .recursiveGroup graph => "Graph '" ++ graph ++ "' cannot contain a reference to itself"
  | .argumentShape argument fault => "Invalid argument '" ++ argument ++ "': " ++ fault.reason
  | .argumentArity argument expected found =>
    "Argument '" ++ argument ++ "' takes at most " ++ toString expected ++ " values, got " ++
      toString found
  | .foreignValue expected found =>
    "Value from graph '" ++ found ++ "' used while building '" ++ expected ++ "'"
  | .noActiveGraph => "No active graph"
  | .link error => error.message
  | .property error => error.message
  | .zone error => error.message

end NodeScript

import NodeScript.Build.Error

/-!
# Values, arguments and results of calls
-/

namespace NodeScript

/-- An output of a node in a graph that is being built. -/
structure Expr where
  graph : String
  node : NodeId
  port : PortId
  type : SocketType
deriving DecidableEq, Repr

/-- A value for one socket. -/
inductive Operand where
  | expr (expr : Expr)
  | literal (value : Literal)
deriving DecidableEq, Repr

/-- The fields of a parameter group with their values. -/
structure GroupValue where
  name : String
  fields : OrderedMap String Expr

/-- An argument of a call. -/
inductive Argument where
  | expr (expr : Expr)
  | literal (value : Literal)
  | list (items : List Argument)
  | choice (chosen : String)
  | group (group : GroupValue)

namespace Argument

/-- The argument that an operand is. -/
def ofOperand : Operand → Argument
  | .expr source => .expr source
  | .literal value => .literal value

/-- Whether a node output is meant. -/
def isExpr : Argument → Bool
  | .expr _ => true
  | _ => false

/-- Whether the argument is a list of node outputs, and not empty. -/
def isExprList : Argument → Bool
  | .list items => !items.isEmpty && items.all isExpr
  | _ => false

/-- A float or an integer, as a float. -/
def number? : Argument → Option Single
  | .literal (.float value) => some value
  | .literal (.int value) => some (Single.ofInt value.toInt)
  | _ => none

/-- The literal an argument stands for. Three numbers make a vector, four a color. -/
def literal? : Argument → Option Literal
  | .literal value => some value
  | .choice chosen => some (.text chosen)
  | .list items =>
    match items.mapM number? with
    | some [x, y, z] => some (.vector x y z)
    | some [r, g, b, a] => some (.color r g b a)
    | _ => none
  | .expr _ => none
  | .group _ => none

end Argument

/-- Arguments by name, in the order they were given. -/
abbrev Arguments := OrderedMap String Argument

/-- Replace every group by its fields. -/
def spreadGroups (arguments : Arguments) : Arguments :=
  arguments.entries.foldl (fun spread (name, argument) =>
    match argument with
    | .group group => group.fields.entries.foldl
        (fun spread (field, expr) => spread.insert field (.expr expr)) spread
    | other => spread.insert name other) ∅

/-- Enabled outputs of the node that a call made. -/
inductive CallResult where
  | single (expr : Expr)
  | named (outputs : OrderedMap String Expr)

namespace CallResult

/-- The only output. -/
def only : CallResult → Except BuildError Expr
  | .single expr => .ok expr
  | .named outputs =>
    .error (.argumentShape (Text.join ", " outputs.keys) .severalOutputs)

/-- The output with a name; an only output has none. -/
def output (result : CallResult) (name : String) : Except BuildError Expr :=
  let found := match result with
    | .single _ => none
    | .named outputs => outputs.get? name
  match found with
  | some expr => .ok expr
  | none => .error (.unknownOutput "call" name)

def exprs : CallResult → List Expr
  | .single expr => [expr]
  | .named outputs => outputs.values

end CallResult

/-- An input of a body. -/
inductive Input where
  | value (expr : Expr)
  | group (group : GroupValue)

/-- The inputs of a body by name, in the order of declaration. -/
abbrev Inputs := OrderedMap String Input

namespace Inputs

/-- Put a field into its group, which is new if need be. -/
def addField (inputs : Inputs) (group field : String) (expr : Expr) : Inputs :=
  match inputs.get? group with
  | none => inputs.insert group (.group ⟨group, (∅ : OrderedMap String Expr).insert field expr⟩)
  | some (.group value) =>
    inputs.insert group (.group { value with fields := value.fields.insert field expr })
  | some (.value _) => inputs

/-- An input of its own. -/
def value (inputs : Inputs) (name : String) : Except BuildError Expr :=
  match inputs.get? name with
  | some (.value expr) => .ok expr
  | _ => .error (.unknownName name)

/-- A group of inputs. -/
def group (inputs : Inputs) (name : String) : Except BuildError GroupValue :=
  match inputs.get? name with
  | some (.group group) => .ok group
  | _ => .error (.unknownName name)

end Inputs

/-- What a body returns. -/
inductive Returns where
  | single (value : Operand)
  | tuple (values : List Operand)
  | named (values : List (String × Operand))
  /-- Produced one at a time; geometry is joined into one result. -/
  | staged (values : List Operand)

/-- Return what a call gave. -/
def Returns.ofCall : CallResult → Returns
  | .single expr => .single (.expr expr)
  | .named outputs => .named (outputs.entries.map fun (name, expr) => (name, .expr expr))

end NodeScript

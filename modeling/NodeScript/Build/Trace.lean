import NodeScript.Build.Argument
import NodeScript.Store

/-!
# Traces

What a procedure reports while it runs. Values are shown by their places in the store at that
moment.
-/

namespace NodeScript

/-- Position of a value: the number of its node among the graph's nodes, and of its port among the
node's outputs. A node that is gone has the number of nodes. -/
structure Place where
  graph : String
  node : Nat
  output : Option Nat
  type : SocketType
deriving DecidableEq, Repr

/-- Number of a node among the nodes. -/
def Graph.nodeNumber (graph : Graph) (id : NodeId) : Nat := graph.nodes.keys.idxOf id

/-- Where a node output stands. -/
def Store.place (store : Store) (expr : Expr) : Place :=
  let graph := store.getD expr.graph
  { graph := expr.graph
    node := graph.nodeNumber expr.node
    output := (graph.node? expr.node).bind fun node =>
      node.outputs.findIdx? fun port => port.id = expr.port
    type := expr.type }

/-- An input with its places. -/
inductive ShownInput where
  | value (place : Place)
  | group (name : String) (fields : List (String × Place))

/-- What a build reports. -/
inductive Event where
  | inputs (inputs : List (String × ShownInput))
  | single (place : Place)
  | named (outputs : List (String × Place))
  | iteration (index points : Place)
  | built (graph : String)
  | group (name : String) (fields : List String)
  | active (graph : String) (depth : Nat)
  | node (number : Nat)
  | enabled (positions : List Nat)
  | done
  | failed (error : BuildError)

namespace Store

/-- An input as it is reported. -/
def showInput (store : Store) : Input → ShownInput
  | .value expr => .value (store.place expr)
  | .group group =>
    .group group.name (group.fields.entries.map fun (name, expr) => (name, store.place expr))

/-- Report the inputs of a body. -/
def showInputs (store : Store) (inputs : Inputs) : Event :=
  .inputs (inputs.entries.map fun (name, input) => (name, store.showInput input))

/-- Report the result of a call. -/
def showResult (store : Store) : CallResult → Event
  | .single expr => .single (store.place expr)
  | .named outputs =>
    .named (outputs.entries.map fun (name, expr) => (name, store.place expr))

end Store

end NodeScript

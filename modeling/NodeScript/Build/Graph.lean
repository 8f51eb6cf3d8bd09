import NodeScript.Build.Call
import NodeScript.Build.Signature

/-!
# Building a graph

The signature is checked before anything is touched. Then the graph is emptied, its inputs are
reconciled with the signature, the body runs inside it, and what the body returns becomes its
outputs.
-/

namespace NodeScript

/-- Interface inputs for declarations: an identity is kept where the type at the position is the
same. -/
def reconcile : List Entry → List Declaration → StateM Supply (List Entry)
  | _, [] => pure []
  | [], declaration :: rest => do
    let entry ← declaration.mint
    return entry :: (← reconcile [] rest)
  | old :: olds, declaration :: rest => do
    let entry ← if old.type = declaration.type then pure { declaration with id := old.id }
      else declaration.mint
    return entry :: (← reconcile olds rest)

/-- An operand that is a geometry. -/
def Operand.geometry? : Operand → Option Expr
  | .expr source => if source.type = .geometry then some source else none
  | .literal _ => none

namespace Build

/-- Empty a graph, or create it, and give it the inputs of a signature. -/
def prepare (name : String) (params : List ResolvedParam) : BuildM Unit := do
  let old := ((← get).store.getD name).clear
  let inputs ← draw (reconcile old.interface.inputs (params.map ResolvedParam.declaration))
  modify fun build =>
    { build with store := build.store.set name { old with interface := { inputs } } }

/-- Run inside a graph, and leave it again also after an error. -/
def inScope {α : Type} (name : String) (step : BuildM α) : BuildM α := fun build =>
  let (result, after) := step { build with scopes := name :: build.scopes }
  (result, { after with scopes := after.scopes.tail })

/-- The body's inputs: outputs of the source node, with the fields of a group together. -/
def bodyInputs (source : NodeId) : List ResolvedParam → Nat → Inputs → BuildM Inputs
  | [], _, inputs => pure inputs
  | param :: rest, position, inputs => do
    let value ← outputAt source position
    let inputs := match param.group with
      | some group => Inputs.addField inputs group param.key value
      | none => inputs.insert param.key (.value value)
    bodyInputs source rest (position + 1) inputs

/-- Results with their names, if they have one. -/
def collect (session : Session) : Returns → BuildM (List (Option String × Operand))
  | .single value => pure [(none, value)]
  | .tuple values => pure (values.map fun value => (none, value))
  | .named values => pure (values.map fun (name, value) => (some name, value))
  | .staged values =>
    match values.mapM Operand.geometry? with
    | some (first :: rest) => do
      let arguments : Arguments :=
        (∅ : Arguments).insert "geometry" (.list ((first :: rest).map Argument.expr))
      let result ← call session "join_geometry" none arguments
      return [(none, .expr (← ofExcept result.only))]
    | _ => pure (values.map fun value => (none, value))

/-- Give the graph one output for each result. -/
def bindOutputs (session : Session) (sink : NodeId) :
    List (Option String × Operand) → Nat → BuildM Unit
  | [], _ => pure ()
  | (name, value) :: rest, position => do
    let source ← operandExpr session value
    let name := name.getD (session.settings.resultName position)
    let entry ← draw (Declaration.mint { name, type := source.type })
    let graph ← graph
    putGraph (← draw (graph.addOutput entry))
    let port ← inputAt sink position
    link source sink port
    bindOutputs session sink rest (position + 1)

/-- Make the boundary nodes, run the body and bind its results. -/
def runBody (session : Session) (params : List ResolvedParam)
    (body : Inputs → BuildM Returns) : BuildM Unit := do
  let source ← addNode session groupInputKind
  let sink ← addNode session groupOutputKind
  let inputs ← bodyInputs source params 0 ∅
  let returns ← body inputs
  let outputs ← collect session returns
  bindOutputs session sink outputs 0

/-- Arrange a graph; a failure is only a warning. -/
def arrange (session : Session) (name : String) : BuildM Unit := do
  match (← get).store.get? name with
  | none => pure ()
  | some graph =>
    match graph.arrange session.settings.layout with
    | .ok graph => modify fun build => { build with store := build.store.set name graph }
    | .error e => warn (.layoutFailed name e)

/-- Build the graph of a name from a signature and a body. -/
def build (session : Session) (name : String) (signature : Signature)
    (body : Inputs → BuildM Returns) : BuildM Unit := do
  let params ← ofExcept (signature.validate session.classes)
  prepare name params
  inScope name (runBody session params body)
  if session.settings.autoLayout then arrange session name

end Build

end NodeScript

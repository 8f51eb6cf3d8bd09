import NodeScript.Decompile.Order
import NodeScript.Decompile.Statement

/-!
# Decompiling a graph

The program that rebuilds a graph: one statement for each node that the sink depends on.
-/

namespace NodeScript

open Script

/-- Why a graph has no script. -/
inductive DecompileError where
  | missingSink (graph : String)
  | missingSource (graph : String)
deriving DecidableEq, Repr

def DecompileError.message : DecompileError → String
  | .missingSink graph => "Graph '" ++ graph ++ "' has no group output node"
  | .missingSource graph => "Graph '" ++ graph ++ "' has no group input node"

/-- A graph with what is needed to write it as a program. -/
structure Decompilation where
  refs : References
  pieces : List Piece
  sink : Node

namespace Decompilation

/-- Find the ends of a graph and order its nodes. -/
def ofGraph (graph : Graph) (catalog : Catalog) : Except DecompileError Decompilation :=
  match graph.sinks, graph.source? with
  | [], _ => .error (.missingSink graph.name)
  | _ :: _, none => .error (.missingSource graph.name)
  | sink :: _, some source =>
    let spans := graph.spans
    let order := graph.statementOrder spans source.id sink.id
    .ok {
      refs := ⟨graph, source.id, statementNames graph catalog order []⟩
      pieces := Piece.nest spans order
      sink }

/-- An interface entry as a parameter. -/
def parameter (entry : Entry) : Parameter :=
  { name := snakeCase entry.name, typeName := entry.type.typeName
    default := entry.default.map Value.literal }

/-- The script of the graph. -/
def program (self : Decompilation) : Program where
  name := self.refs.graph.name
  params := self.refs.graph.interface.inputs.map parameter
  statements := self.refs.statements self.pieces
  returns := self.sink.enabledInputs.filterMap fun port =>
    (self.refs.portValue? port false).map fun value => (port.name, value)

/-- What is left out of the program. -/
def warnings (self : Decompilation) : List Warning :=
  self.refs.graph.pairingWarnings ++
    (self.refs.examinedAll self.pieces ++ self.sink.enabledInputs).flatMap self.refs.portWarnings

end Decompilation

/-- The program that rebuilds a graph. -/
def Graph.decompile (graph : Graph) (catalog : Catalog) : Except DecompileError Program :=
  (Decompilation.ofGraph graph catalog).map Decompilation.program

/-- What decompiling a graph has to warn of. -/
def Graph.decompileWarnings (graph : Graph) (catalog : Catalog) : List Warning :=
  match Decompilation.ofGraph graph catalog with
  | .ok found => found.warnings
  | .error _ => []

end NodeScript

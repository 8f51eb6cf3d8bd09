import NodeScript.Decompile.Span

/-!
# Nesting

Statements in order are sorted into the bodies of zones.
-/

namespace NodeScript

/-- A statement that has no name yet. -/
inductive Piece where
  | call (node : NodeId)
  | zone (span : Span) (body : List Piece)

namespace Piece

/-- Of two zones the one with the smaller body, the first if they are equal. -/
def smaller (spans : List Span) (best : Option (Nat × Span)) (position : Nat) :
    Option (Nat × Span) :=
  match best, spans[position]? with
  | none, some span => some (position, span)
  | some (old, kept), some span =>
    if span.body.length < kept.body.length then some (position, span) else some (old, kept)
  | best, none => best

/-- Position of the innermost zone whose body holds a node. -/
def owner? (spans : List Span) (id : NodeId) : Option Nat :=
  let holders := (List.range spans.length).filter fun position =>
    (spans[position]?).any fun span => span.body.contains id
  (holders.foldl (smaller spans) none).map Prod.fst

/-- Bodies under way, one for each zone, and the statements outside of all zones. -/
structure Nest where
  bodies : List (List Piece)
  top : List Piece

/-- The piece for a node. An exit closes its zone: the body becomes part of it. -/
def take (spans : List Span) (nest : Nest) (id : NodeId) : Piece × Nest :=
  match spans.findIdx? fun span => span.exit = id with
  | none => (.call id, nest)
  | some position =>
    match spans[position]? with
    | none => (.call id, nest)
    | some span =>
      (.zone span (nest.bodies.getD position []),
        { nest with bodies := nest.bodies.set position [] })

/-- Sort a node into the body it belongs to. -/
def place (spans : List Span) (nest : Nest) (id : NodeId) : Nest :=
  let (piece, nest) := take spans nest id
  match owner? spans id with
  | some position => { nest with bodies := nest.bodies.modify position (· ++ [piece]) }
  | none => { nest with top := nest.top ++ [piece] }

/-- Sort an order of nodes into zones. -/
def nest (spans : List Span) (order : List NodeId) : List Piece :=
  (order.foldl (place spans) ⟨spans.map fun _ => [], []⟩).top

end Piece

end NodeScript

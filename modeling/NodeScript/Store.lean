import NodeScript.Graph.Basic

/-!
# Stores

Graphs by name, in the order of their creation.
-/

namespace NodeScript

/-- Graphs by name. -/
structure Store where
  version : UInt32
  graphs : OrderedMap String Graph

namespace Store

/-- The newest store format that is understood. -/
def formatVersion : UInt32 := 1

def empty : Store := ⟨formatVersion, ∅⟩

def get? (store : Store) (name : String) : Option Graph := store.graphs.get? name

def contains (store : Store) (name : String) : Bool := store.graphs.contains name

/-- Add an empty graph unless there is one of that name. -/
def ensure (store : Store) (name : String) : Store :=
  if store.contains name then store
  else { store with graphs := store.graphs.insert name { name } }

/-- The graph of a name, empty if it is missing. -/
def getD (store : Store) (name : String) : Graph := (store.get? name).getD { name }

/-- Put a graph in the place of a name. -/
def set (store : Store) (name : String) (graph : Graph) : Store :=
  { store with graphs := store.graphs.insert name graph }

/-- Change a graph, if it exists. -/
def modify (store : Store) (name : String) (f : Graph → Graph) : Store :=
  { store with graphs := store.graphs.modify name f }

/-- Remove a graph. -/
def erase (store : Store) (name : String) : Store :=
  { store with graphs := store.graphs.erase name }

/-- All identities in the store. -/
def ids (store : Store) : List Identity := store.graphs.values.flatMap Graph.ids

end Store

end NodeScript

import NodeScript.Catalog.Basic
import NodeScript.Text.Naming

/-!
# Functions

Scripts call the kinds of a catalog by function names, which are their names in lower case with
underscores. A name belongs to the first kind that has it; boundary kinds are never called.
-/

namespace NodeScript

/-- A node kind as a script calls it. -/
structure Function where
  name : String
  kind : String
  /-- Category, and the menu path below it if there is one. -/
  path : String
deriving DecidableEq, Repr

/-- The function that adds a node of the kind. -/
def Function.ofKind {π : Type} (kind : Kind π) : Function where
  name := snakeCase kind.name
  kind := kind.id
  path :=
    match kind.menuPath with
    | some menu => kind.category.slug ++ "/" ++ menu
    | none => kind.category.slug

/-- Functions by name. -/
structure FunctionTable where
  functions : OrderedMap String Function

namespace FunctionTable

/-- Add a kind, unless it is a boundary or its name is taken. -/
def install {π : Type} (table : OrderedMap String Function) (kind : Kind π) :
    OrderedMap String Function :=
  let function := Function.ofKind kind
  if kind.role.isBoundary || table.contains function.name then table
  else table.insert function.name function

/-- The functions of a catalog. -/
def ofCatalog (catalog : Catalog) : FunctionTable where
  functions := catalog.kinds.values.foldl install ∅

def get? (table : FunctionTable) (name : String) : Option Function := table.functions.get? name

def all (table : FunctionTable) : List Function := table.functions.values

/-- Functions whose path starts with a text. -/
def under (table : FunctionTable) (path : String) : List Function :=
  table.all.filter fun function => path.toList.isPrefixOf function.path.toList

end FunctionTable

end NodeScript

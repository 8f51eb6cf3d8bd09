import NodeScript.Node.Basic
import NodeScript.OrderedMap

/-!
# Catalogs

A catalog is a table of node kinds by identifier, in the order of registration.
-/

namespace NodeScript

/-- Node kinds by identifier. -/
structure Catalog where
  version : UInt32
  kinds : OrderedMap String NodeKind

namespace Catalog

/-- The newest catalog format that is understood. -/
def formatVersion : UInt32 := 1

def empty : Catalog := ⟨formatVersion, ∅⟩

def get? (catalog : Catalog) (id : String) : Option NodeKind := catalog.kinds.get? id

/-- Add a kind; a kind with the same identifier gives up its place to it. -/
def register (catalog : Catalog) (kind : NodeKind) : Catalog :=
  { catalog with kinds := catalog.kinds.insert kind.id kind }

def inCategory (catalog : Catalog) (category : Category) : List NodeKind :=
  catalog.kinds.values.filter fun kind => kind.category = category

/-- Give the sockets of a kind identities and register it. -/
def registerSpec (catalog : Catalog) (spec : KindSpec) : StateM Supply Catalog := do
  let kind ← spec.mint
  return catalog.register kind

/-- Register kinds in order. -/
def registerAll : List KindSpec → Catalog → StateM Supply Catalog
  | [], catalog => pure catalog
  | spec :: rest, catalog => do
    let catalog ← catalog.registerSpec spec
    registerAll rest catalog

/-- Identities of all ports of the catalog. -/
def ids (catalog : Catalog) : List Identity :=
  catalog.kinds.values.flatMap fun kind => (kind.inputs ++ kind.outputs).map Port.id

end Catalog

end NodeScript

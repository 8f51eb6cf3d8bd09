import NodeScript.Catalog.Arithmetic
import NodeScript.Catalog.Basic
import NodeScript.Catalog.Geometry
import NodeScript.Catalog.Shapes
import NodeScript.Catalog.Structure

/-!
# The standard catalog
-/

namespace NodeScript.Catalog

/-- Kinds that are there when no other catalog is given. -/
def standardKinds : List KindSpec :=
  structureKinds ++ constantKinds ++ mathKinds ++ utilityKinds ++ geometryKinds ++ fieldKinds ++
    pointKinds ++ attributeKinds ++ primitiveKinds ++ meshKinds ++ curveKinds

/-- The catalog that programs start with. -/
def standard : StateM Supply Catalog := registerAll standardKinds empty

end NodeScript.Catalog

import NodeScript.Catalog.Sockets
import NodeScript.Node.Kind

/-!
# Points, instances, meshes and curves
-/

namespace NodeScript.Catalog

/-- Nodes that make and use points. -/
def pointKinds : List KindSpec :=
  [{ id := "GeometryNodePoints", name := "Points", category := .point
     inputs := [int "Count" 1, vector "Position" 0 0 0, float "Radius" 0.1]
     outputs := [.output "Geometry" .geometry] },
    { id := "GeometryNodeInstanceOnPoints", name := "Instance on Points", category := .instances
      inputs :=
        [geometry "Points", selection, geometry "Instance", boolean "Pick Instance" false,
          implicitField "Instance Index" .int, rotation "Rotation", vector "Scale" 1 1 1]
      outputs := [.output "Instances" .geometry] },
    { id := "GeometryNodeRealizeInstances", name := "Realize Instances", category := .instances
      inputs := [geometry "Geometry"]
      outputs := [.output "Geometry" .geometry] }]

def mesh : Socket := .output "Mesh" .geometry

/-- Nodes that make meshes. -/
def primitiveKinds : List KindSpec :=
  [{ id := "GeometryNodeMeshCube", name := "Cube", category := .mesh
     menuPath := some "primitives"
     inputs :=
       [vector "Size" 1 1 1, int "Vertices X" 2, int "Vertices Y" 2, int "Vertices Z" 2]
     outputs := [mesh] },
    { id := "GeometryNodeMeshGrid", name := "Grid", category := .mesh
      menuPath := some "primitives"
      inputs :=
        [float "Size X" 1, float "Size Y" 1, int "Vertices X" 3, int "Vertices Y" 3]
      outputs := [mesh] },
    { id := "GeometryNodeMeshUVSphere", name := "UV Sphere", category := .mesh
      menuPath := some "primitives"
      inputs := [int "Segments" 32, int "Rings" 16, float "Radius" 1]
      outputs := [mesh] },
    { id := "GeometryNodeMeshIcoSphere", name := "Ico Sphere", category := .mesh
      menuPath := some "primitives"
      inputs := [float "Radius" 1, int "Subdivisions" 1]
      outputs := [mesh] },
    { id := "GeometryNodeMeshCylinder", name := "Cylinder", category := .mesh
      menuPath := some "primitives"
      inputs :=
        [int "Vertices" 32, int "Side Segments" 1, int "Fill Segments" 1, float "Radius" 1,
          float "Depth" 2]
      outputs := [mesh, .output "Top" .bool, .output "Side" .bool, .output "Bottom" .bool]
      properties := [.enumeration "fill_type" ["NGON", "TRIANGLE_FAN", "NONE"]] },
    { id := "GeometryNodeMeshLine", name := "Mesh Line", category := .mesh
      menuPath := some "primitives"
      inputs := [int "Count" 10, vector "Start Location" 0 0 0, vector "Offset" 0 0 1]
      outputs := [mesh]
      properties := [.enumeration "mode" ["OFFSET", "END_POINTS"]] }]

/-- Nodes that edit meshes. -/
def meshKinds : List KindSpec :=
  [{ id := "GeometryNodeMeshToPoints", name := "Mesh to Points", category := .mesh
     inputs :=
       [geometry "Mesh", selection, implicitField "Position" .vector, float "Radius" 0.05]
     outputs := [.output "Points" .geometry]
     properties := [.enumeration "mode" ["VERTICES", "EDGES", "FACES", "CORNERS"]] },
    { id := "GeometryNodeDistributePointsOnFaces", name := "Distribute Points on Faces"
      category := .point
      inputs := [geometry "Mesh", selection, float "Density" 10, int "Seed" 0]
      outputs :=
        [.output "Points" .geometry, .output "Normal" .vector, .output "Rotation" .rotation]
      properties := [.enumeration "distribute_method" ["RANDOM", "POISSON"]] },
    { id := "GeometryNodeMeshBoolean", name := "Mesh Boolean", category := .mesh
      inputs :=
        [geometry "Mesh 1", (geometry "Mesh 2").multi, boolean "Self Intersection" false,
          boolean "Hole Tolerant" false]
      outputs := [mesh]
      properties := [.enumeration "operation" ["DIFFERENCE", "UNION", "INTERSECT"]] }]

/-- Nodes that make and use curves. -/
def curveKinds : List KindSpec :=
  [{ id := "GeometryNodeCurvePrimitiveLine", name := "Curve Line", category := .curve
     menuPath := some "primitives"
     inputs := [vector "Start" 0 0 0, vector "End" 0 0 1]
     outputs := [.output "Curve" .geometry]
     properties := [.enumeration "mode" ["POINTS", "DIRECTION"]] },
    { id := "GeometryNodeCurveToMesh", name := "Curve to Mesh", category := .curve
      inputs := [geometry "Curve", geometry "Profile Curve", boolean "Fill Caps" false]
      outputs := [mesh] },
    { id := "GeometryNodeCurveToPoints", name := "Curve to Points", category := .curve
      inputs := [geometry "Curve", int "Count" 10, float "Length" 0.1]
      outputs :=
        [.output "Points" .geometry, .output "Tangent" .vector, .output "Normal" .vector,
          .output "Rotation" .rotation]
      properties := [.enumeration "mode" ["COUNT", "EVALUATED", "LENGTH"]] }]

end NodeScript.Catalog

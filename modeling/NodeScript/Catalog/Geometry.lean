import NodeScript.Catalog.Sockets
import NodeScript.Node.Kind

/-!
# Operations on geometry, fields and attributes
-/

namespace NodeScript.Catalog

/-- Nodes that edit geometry. -/
def geometryKinds : List KindSpec :=
  [{ id := "GeometryNodeJoinGeometry", name := "Join Geometry", category := .geometry
     description := "Merge separately generated geometries into a single one"
     inputs := [(geometry "Geometry").multi]
     outputs := [.output "Geometry" .geometry] },
    { id := "GeometryNodeTransform", name := "Transform Geometry", category := .geometry
      inputs :=
        [geometry "Geometry", vector "Translation" 0 0 0, rotation "Rotation", vector "Scale" 1 1 1]
      outputs := [.output "Geometry" .geometry] },
    { id := "GeometryNodeBoundBox", name := "Bounding Box", category := .geometry
      inputs := [geometry "Geometry"]
      outputs := [.output "Bounding Box" .geometry, .output "Min" .vector, .output "Max" .vector] },
    { id := "GeometryNodeSetPosition", name := "Set Position", category := .geometry
      inputs :=
        [geometry "Geometry", selection, implicitField "Position" .vector, vector "Offset" 0 0 0]
      outputs := [.output "Geometry" .geometry] },
    { id := "GeometryNodeDeleteGeometry", name := "Delete Geometry", category := .geometry
      inputs := [geometry "Geometry", selection]
      outputs := [.output "Geometry" .geometry]
      properties :=
        [.enumeration "domain" domains, .enumeration "mode" ["ALL", "EDGE_FACE", "ONLY_FACE"]] },
    { id := "GeometryNodeMergeByDistance", name := "Merge by Distance", category := .geometry
      inputs := [geometry "Geometry", selection, float "Distance" 0.001]
      outputs := [.output "Geometry" .geometry]
      properties := [.enumeration "mode" ["ALL", "CONNECTED"]] },
    { id := "GeometryNodeProximity", name := "Geometry Proximity", category := .geometry
      inputs := [geometry "Target", implicitField "Source Position" .vector]
      outputs := [.output "Position" .vector, .output "Distance" .float]
      properties := [.enumeration "target_element" ["FACES", "EDGES", "POINTS"]] }]

/-- Nodes that yield fields. -/
def fieldKinds : List KindSpec :=
  [{ id := "GeometryNodeInputPosition", name := "Position", category := .input
     outputs := [.output "Position" .vector] },
    { id := "GeometryNodeInputIndex", name := "Index", category := .input
      outputs := [.output "Index" .int] },
    { id := "GeometryNodeInputID", name := "ID", category := .input
      outputs := [.output "ID" .int] },
    { id := "GeometryNodeSampleIndex", name := "Sample Index", category := .geometry
      inputs :=
        geometry "Geometry" :: (fieldInputs "Value").map Socket.hidden ++ [(int "Index" 0).hidden]
      outputs := fieldOutputs "Value"
      properties :=
        [.enumeration "data_type" fieldDataTypes, .enumeration "domain" domains,
          ⟨"clamp", .bool, .bool false⟩] },
    { id := "GeometryNodeSampleNearest", name := "Sample Nearest", category := .geometry
      inputs := [geometry "Geometry", implicitField "Sample Position" .vector]
      outputs := [.output "Index" .int]
      properties := [.enumeration "domain" domains] },
    { id := "GeometryNodeSampleNearestSurface", name := "Sample Nearest Surface"
      category := .geometry
      inputs :=
        geometry "Mesh" :: (fieldInputs "Value").map Socket.hidden ++
          [implicitField "Sample Position" .vector]
      outputs := fieldOutputs "Value"
      properties := [.enumeration "data_type" fieldDataTypes] }]

/-- Nodes that read and write attributes. -/
def attributeKinds : List KindSpec :=
  [{ id := "GeometryNodeInputNamedAttribute", name := "Named Attribute", category := .attributes
     inputs := [text "Name"]
     outputs := fieldOutputs "Attribute" ++ [.output "Exists" .bool]
     properties := [.enumeration "data_type" fieldDataTypes] },
    { id := "GeometryNodeStoreNamedAttribute", name := "Store Named Attribute"
      category := .attributes
      inputs := [geometry "Geometry", selection, text "Name"] ++ fieldInputs "Value"
      outputs := [.output "Geometry" .geometry]
      properties := [.enumeration "data_type" fieldDataTypes, .enumeration "domain" domains] }]

end NodeScript.Catalog

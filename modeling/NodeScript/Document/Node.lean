import NodeScript.Document.Codec
import NodeScript.Node.Basic

/-!
# Ports, kinds and nodes as documents
-/

namespace NodeScript

def nodeIdCodec : Codec NodeId := Identity.codec "NodeId"

def portIdCodec : Codec PortId := Identity.codec "PortId"

/-- Words for the directions. -/
def Direction.codec : Codec Direction :=
  .words [.input, .output] fun
    | .input => "Input"
    | .output => "Output"

namespace SocketType

/-- A word, or the name of a class. -/
def codec : Codec SocketType where
  encode
    | .custom className => .tuple .plain (some "Custom") [.text className]
    | type => .word type.typeName
  decode reading
    | .word name => standard.find? fun type => type.typeName = name
    | document => ((Codec.variant "Custom" .text).decode reading document).map .custom

end SocketType

namespace Literal

/-- A literal with its type. -/
def codec : Codec Literal where
  encode
    | .bool v => (Codec.variant "Bool" .bool).encode v
    | .int v => (Codec.variant "Int" .int32).encode v
    | .float v => (Codec.variant "Float" .single).encode v
    | .vector x y z => (Codec.singlesVariant "Vector" 3).encode [x, y, z]
    | .color r g b a => (Codec.singlesVariant "Color" 4).encode [r, g, b, a]
    | .text v => (Codec.variant "String" .text).encode v
  decode reading document :=
    match document.variantName? with
    | some "Bool" => ((Codec.variant "Bool" .bool).decode reading document).map .bool
    | some "Int" => ((Codec.variant "Int" .int32).decode reading document).map .int
    | some "Float" =>
      ((Codec.variant "Float" .single).decode reading document).map .float
    | some "Vector" => Codec.triple? "Vector" .vector reading document
    | some "Color" => do
      match ← (Codec.singlesVariant "Color" 4).decode reading document with
      | [r, g, b, a] => return .color r g b a
      | _ => none
    | some "String" =>
      ((Codec.variant "String" .text).decode reading document).map .text
    | _ => none

end Literal

namespace PortCondition

/-- Fields of a condition. -/
def caseFields (property : String) (cases : List String) : List (String × Document) :=
  [("property", .text property), ("values", Codec.text.list.encode cases)]

/-- A condition with its sense. -/
def codec : Codec PortCondition where
  encode
    | .oneOf property cases => .record (some "OneOf") (caseFields property cases)
    | .noneOf property cases => .record (some "NoneOf") (caseFields property cases)
  decode reading
    | .record (some name) entries => do
      let fields ← Document.Fields.of? (reading.within 1) ["property", "values"] entries
      let property ← Document.required .text "property" fields
      let cases ← Document.required Codec.text.list "values" fields
      if name = "OneOf" then return .oneOf property cases
      else if name = "NoneOf" then return .noneOf property cases
      else none
    | _ => none

end PortCondition

/-- Fields of a port. -/
def Port.codec : Codec Port where
  encode port := .record none
    [("id", portIdCodec.encode port.id), ("name", .text port.name),
      ("direction", Direction.codec.encode port.direction),
      ("socket_type", SocketType.codec.encode port.type),
      ("default_value", Literal.codec.option.encode port.default),
      ("hide_value", Codec.bool.encode port.hideValue),
      ("enabled", Codec.bool.encode port.enabled),
      ("multi_input", Codec.bool.encode port.multiInput),
      ("enabled_when", PortCondition.codec.option.encode port.enabledWhen),
      ("zone_item", Codec.bool.encode port.zoneItem)]
  decode reading document := do
    let fields ← document.fields? reading "Port"
      ["id", "name", "direction", "socket_type", "default_value", "hide_value", "enabled",
        "multi_input", "enabled_when", "zone_item"]
    return {
      id := ← Document.required portIdCodec "id" fields
      name := ← Document.required .text "name" fields
      direction := ← Document.required Direction.codec "direction" fields
      type := ← Document.required SocketType.codec "socket_type" fields
      default := ← Document.optional Literal.codec.option "default_value" none fields
      hideValue := ← Document.optional .bool "hide_value" false fields
      enabled := ← Document.optional .bool "enabled" true fields
      multiInput := ← Document.optional .bool "multi_input" false fields
      enabledWhen := ← Document.optional PortCondition.codec.option "enabled_when" none fields
      zoneItem := ← Document.optional .bool "zone_item" false fields }

namespace PropertyKind

/-- A word, or the cases. -/
def codec : Codec PropertyKind where
  encode
    | .enumeration cases => (Codec.variant "Enum" Codec.text.list).encode cases
    | .graph => .word "GraphRef"
    | kind => .word kind.typeName
  decode reading
    | .word "Bool" => some .bool
    | .word "Int" => some .int
    | .word "Float" => some .float
    | .word "String" => some .string
    | .word "Vector" => some .vector
    | .word "GraphRef" => some .graph
    | document =>
      ((Codec.variant "Enum" Codec.text.list).decode reading document).map .enumeration

end PropertyKind

namespace PropertyValue

/-- A value with its type. -/
def codec : Codec PropertyValue where
  encode
    | .bool v => (Codec.variant "Bool" .bool).encode v
    | .int v => (Codec.variant "Int" .int32).encode v
    | .float v => (Codec.variant "Float" .single).encode v
    | .string v => (Codec.variant "String" .text).encode v
    | .vector x y z => (Codec.singlesVariant "Vector" 3).encode [x, y, z]
    | .enumeration chosen => (Codec.variant "Enum" .text).encode chosen
    | .graph name => (Codec.variant "GraphRef" .text).encode name
  decode reading document :=
    match document.variantName? with
    | some "Bool" => ((Codec.variant "Bool" .bool).decode reading document).map .bool
    | some "Int" => ((Codec.variant "Int" .int32).decode reading document).map .int
    | some "Float" =>
      ((Codec.variant "Float" .single).decode reading document).map .float
    | some "String" =>
      ((Codec.variant "String" .text).decode reading document).map .string
    | some "Vector" => Codec.triple? "Vector" .vector reading document
    | some "Enum" =>
      ((Codec.variant "Enum" .text).decode reading document).map .enumeration
    | some "GraphRef" =>
      ((Codec.variant "GraphRef" .text).decode reading document).map .graph
    | _ => none

end PropertyValue

/-- Fields of a declaration. -/
def PropertyDecl.codec : Codec PropertyDecl where
  encode decl := .record none
    [("name", .text decl.name), ("kind", PropertyKind.codec.encode decl.kind),
      ("default", PropertyValue.codec.encode decl.default)]
  decode reading document := do
    let fields ← document.fields? reading "PropertyDecl" ["name", "kind", "default"]
    return {
      name := ← Document.required .text "name" fields
      kind := ← Document.required PropertyKind.codec "kind" fields
      default := ← Document.required PropertyValue.codec "default" fields }

/-- Fields of a property. -/
def Property.codec : Codec Property where
  encode property := .record none
    [("decl", PropertyDecl.codec.encode property.decl),
      ("value", PropertyValue.codec.encode property.value)]
  decode reading document := do
    let fields ← document.fields? reading "Property" ["decl", "value"]
    return {
      decl := ← Document.required PropertyDecl.codec "decl" fields
      value := ← Document.required PropertyValue.codec "value" fields }

namespace Role

def all : List Role :=
  [.regular, .groupInput, .groupOutput, .group, .repeatInput, .repeatOutput, .simulationInput,
    .simulationOutput]

/-- Word for the role. -/
def documentName : Role → String
  | .regular => "Regular"
  | .groupInput => "GroupInput"
  | .groupOutput => "GroupOutput"
  | .group => "Group"
  | .repeatInput => "RepeatInput"
  | .repeatOutput => "RepeatOutput"
  | .simulationInput => "SimulationInput"
  | .simulationOutput => "SimulationOutput"

def codec : Codec Role := .words all documentName

end Role

namespace Category

/-- Word for the category. -/
def documentName : Category → String
  | .input => "Input"
  | .output => "Output"
  | .geometry => "Geometry"
  | .mesh => "Mesh"
  | .curve => "Curve"
  | .point => "Point"
  | .instances => "Instances"
  | .attributes => "Attribute"
  | .math => "Math"
  | .utilities => "Utilities"
  | .zone => "Zone"
  | .group => "Group"
  | .custom => "Custom"

def codec : Codec Category := .words all documentName

end Category

/-- Fields of a node kind. -/
def NodeKind.codec : Codec NodeKind where
  encode kind := .record none
    [("id", .text kind.id), ("name", .text kind.name),
      ("category", Category.codec.encode kind.category),
      ("menu_path", Codec.text.option.encode kind.menuPath),
      ("role", Role.codec.encode kind.role), ("description", .text kind.description),
      ("inputs", Port.codec.list.encode kind.inputs),
      ("outputs", Port.codec.list.encode kind.outputs),
      ("properties", PropertyDecl.codec.list.encode kind.properties)]
  decode reading document := do
    let fields ← document.fields? reading "NodeKind"
      ["id", "name", "category", "menu_path", "role", "description", "inputs", "outputs",
        "properties"]
    return {
      id := ← Document.required .text "id" fields
      name := ← Document.required .text "name" fields
      category := ← Document.required Category.codec "category" fields
      menuPath := ← Document.optional Codec.text.option "menu_path" none fields
      role := ← Document.optional Role.codec "role" .regular fields
      description := ← Document.optional .text "description" "" fields
      inputs := ← Document.required Port.codec.list "inputs" fields
      outputs := ← Document.required Port.codec.list "outputs" fields
      properties := ← Document.optional PropertyDecl.codec.list "properties" [] fields }

/-- Two numbers side by side. -/
def pairCodec : Codec (Single × Single) where
  encode pair := (Codec.singles 2).encode [pair.1, pair.2]
  decode reading document := do
    match ← (Codec.singles 2).decode reading document with
    | [x, y] => return (x, y)
    | _ => none

/-- Fields of a node. -/
def Node.codec : Codec Node where
  encode node := .record none
    [("id", nodeIdCodec.encode node.id), ("kind", .text node.kind), ("name", .text node.name),
      ("role", Role.codec.encode node.role), ("position", pairCodec.encode node.position),
      ("width", Codec.single.encode node.width), ("inputs", Port.codec.list.encode node.inputs),
      ("outputs", Port.codec.list.encode node.outputs),
      ("properties", Property.codec.list.encode node.properties),
      ("paired_output", nodeIdCodec.option.encode node.pairedOutput)]
  decode reading document := do
    let fields ← document.fields? reading "Node"
      ["id", "kind", "name", "role", "position", "width", "inputs", "outputs", "properties",
        "paired_output"]
    return {
      id := ← Document.required nodeIdCodec "id" fields
      kind := ← Document.required .text "kind" fields
      name := ← Document.required .text "name" fields
      role := ← Document.required Role.codec "role" fields
      position := ← Document.required pairCodec "position" fields
      width := ← Document.required .single "width" fields
      inputs := ← Document.required Port.codec.list "inputs" fields
      outputs := ← Document.required Port.codec.list "outputs" fields
      properties := ← Document.required Property.codec.list "properties" fields
      pairedOutput := ← Document.optional nodeIdCodec.option "paired_output" none fields }

end NodeScript

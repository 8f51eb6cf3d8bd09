import NodeScript.Socket.Port

/-!
# Sockets of the standard kinds

Recurring socket shapes, and the sockets that exist once for each data type of a field.
-/

namespace NodeScript.Catalog

def float (name : String) (value : Single) : Socket := .input name .float (some (.float value))

def int (name : String) (value : Int32) : Socket := .input name .int (some (.int value))

def boolean (name : String) (value : Bool) : Socket := .input name .bool (some (.bool value))

def vector (name : String) (x y z : Single) : Socket := .input name .vector (some (.vector x y z))

def rotation (name : String) : Socket := .input name .rotation (some (.vector 0 0 0))

def text (name : String) : Socket := .input name .string (some (.text ""))

def geometry (name : String) : Socket := .input name .geometry

/-- Which elements an operation touches; all unless linked. -/
def selection : Socket := (boolean "Selection" true).hidden

/-- A field that is read from the elements unless linked. -/
def implicitField (name : String) (type : SocketType) : Socket := (Socket.input name type).hidden

/-- Cases of a field's type. -/
def fieldDataTypes : List String := ["FLOAT", "INT", "FLOAT_VECTOR", "FLOAT_COLOR", "BOOLEAN"]

/-- Parts of a geometry that carry attributes. -/
def domains : List String := ["POINT", "EDGE", "FACE", "CORNER", "CURVE", "INSTANCE"]

/-- Enabled for one type only. -/
def whenDataType (dataType : String) : PortCondition := .oneOf "data_type" [dataType]

/-- Field data types with their socket type and initial value. -/
def fieldTypes : List (String × SocketType × Literal) :=
  [("FLOAT", .float, .float 0), ("INT", .int, .int 0), ("FLOAT_VECTOR", .vector, .vector 0 0 0),
    ("FLOAT_COLOR", .color, .color 0 0 0 1), ("BOOLEAN", .bool, .bool false)]

/-- One input for each data type, enabled by the choice of that type. -/
def fieldInputs (name : String) : List Socket :=
  fieldTypes.map fun (dataType, type, value) =>
    (Socket.input name type (some value)).onlyWhen (whenDataType dataType)

/-- One output for each data type, enabled by the choice of that type. -/
def fieldOutputs (name : String) : List Socket :=
  fieldTypes.map fun (dataType, type, _) =>
    (Socket.output name type).onlyWhen (whenDataType dataType)

end NodeScript.Catalog

import NodeScript.Catalog.Sockets
import NodeScript.Node.Kind

/-!
# Constants and operations on values
-/

namespace NodeScript.Catalog

/-- Nodes that yield a literal. -/
def constantKinds : List KindSpec :=
  [{ id := "FunctionNodeInputInt", name := "Integer", category := .input
     menuPath := some "constant"
     outputs := [.output "Integer" .int]
     properties := [⟨"integer", .int, .int 0⟩] },
    { id := "FunctionNodeInputBool", name := "Boolean", category := .input
      menuPath := some "constant"
      outputs := [.output "Boolean" .bool]
      properties := [⟨"boolean", .bool, .bool false⟩] },
    { id := "FunctionNodeInputString", name := "String", category := .input
      menuPath := some "constant"
      outputs := [.output "String" .string]
      properties := [⟨"string", .string, .string ""⟩] },
    { id := "FunctionNodeInputVector", name := "Vector", category := .input
      menuPath := some "constant"
      outputs := [.output "Vector" .vector]
      properties := [⟨"vector", .vector, .vector 0 0 0⟩] },
    { id := "ShaderNodeValue", name := "Value", category := .input
      menuPath := some "constant"
      outputs := [.output "Value" .float (some (.float 0))] }]

/-- Cases of the math node. -/
def mathOperations : List String :=
  ["ADD", "SUBTRACT", "MULTIPLY", "DIVIDE", "MULTIPLY_ADD", "POWER", "LOGARITHM", "SQRT",
    "INVERSE_SQRT", "ABSOLUTE", "EXPONENT", "MINIMUM", "MAXIMUM", "LESS_THAN", "GREATER_THAN",
    "SIGN", "COMPARE", "SMOOTH_MIN", "SMOOTH_MAX", "ROUND", "FLOOR", "CEIL", "TRUNC", "FRACT",
    "MODULO", "FLOORED_MODULO", "WRAP", "SNAP", "PINGPONG", "SINE", "COSINE", "TANGENT", "ARCSINE",
    "ARCCOSINE", "ARCTANGENT", "ARCTAN2", "RADIANS", "DEGREES"]

/-- Operations on one operand. -/
def mathUnary : List String :=
  ["SQRT", "INVERSE_SQRT", "ABSOLUTE", "EXPONENT", "SIGN", "ROUND", "FLOOR", "CEIL", "TRUNC",
    "FRACT", "SINE", "COSINE", "TANGENT", "ARCSINE", "ARCCOSINE", "ARCTANGENT", "RADIANS",
    "DEGREES"]

/-- Operations on three operands. -/
def mathTernary : List String := ["MULTIPLY_ADD", "COMPARE", "SMOOTH_MIN", "SMOOTH_MAX", "WRAP"]

/-- Cases of the vector math node. -/
def vectorOperations : List String :=
  ["ADD", "SUBTRACT", "MULTIPLY", "DIVIDE", "MULTIPLY_ADD", "CROSS_PRODUCT", "PROJECT", "REFLECT",
    "FACEFORWARD", "DOT_PRODUCT", "DISTANCE", "LENGTH", "SCALE", "NORMALIZE", "ABSOLUTE", "MINIMUM",
    "MAXIMUM", "FLOOR", "CEIL", "FRACTION", "MODULO", "WRAP", "SNAP", "SINE", "COSINE", "TANGENT"]

/-- Cases without a second vector. -/
def vectorUnary : List String :=
  ["LENGTH", "SCALE", "NORMALIZE", "ABSOLUTE", "FLOOR", "CEIL", "FRACTION", "SINE", "COSINE",
    "TANGENT"]

/-- Vector operations whose result is a scalar. -/
def vectorToScalar : List String := ["DOT_PRODUCT", "DISTANCE", "LENGTH"]

def compareOperations : List String :=
  ["LESS_THAN", "LESS_EQUAL", "GREATER_THAN", "GREATER_EQUAL", "EQUAL", "NOT_EQUAL", "BRIGHTER",
    "DARKER"]

def booleanOperations : List String :=
  ["AND", "OR", "NOT", "NAND", "NOR", "XNOR", "XOR", "IMPLY", "NIMPLY"]

/-- Arithmetic nodes. -/
def mathKinds : List KindSpec :=
  [{ id := "ShaderNodeMath", name := "Math", category := .math
     description := "Scalar math operation"
     inputs :=
       [float "Value" 0.5,
         (float "Value" 0.5).onlyWhen (.noneOf "operation" mathUnary),
         (float "Value" 0.5).onlyWhen (.oneOf "operation" mathTernary)]
     outputs := [.output "Value" .float]
     properties :=
       [.enumeration "operation" mathOperations, ⟨"use_clamp", .bool, .bool false⟩] },
    { id := "ShaderNodeVectorMath", name := "Vector Math", category := .math
      description := "Vector math operation"
      inputs :=
        [vector "Vector" 0 0 0,
          (vector "Vector" 0 0 0).onlyWhen (.noneOf "operation" vectorUnary),
          (vector "Vector" 0 0 0).onlyWhen
            (.oneOf "operation" ["MULTIPLY_ADD", "FACEFORWARD", "WRAP"]),
          (float "Scale" 1).onlyWhen (.oneOf "operation" ["SCALE"])]
      outputs :=
        [(Socket.output "Vector" .vector).onlyWhen (.noneOf "operation" vectorToScalar),
          (Socket.output "Value" .float).onlyWhen (.oneOf "operation" vectorToScalar)]
      properties := [.enumeration "operation" vectorOperations] },
    { id := "ShaderNodeSeparateXYZ", name := "Separate XYZ", category := .math
      inputs := [vector "Vector" 0 0 0]
      outputs := [.output "X" .float, .output "Y" .float, .output "Z" .float] },
    { id := "ShaderNodeCombineXYZ", name := "Combine XYZ", category := .math
      inputs := [float "X" 0, float "Y" 0, float "Z" 0]
      outputs := [.output "Vector" .vector] }]

/-- Compared types with the socket type and initial value of both operands. -/
def comparedTypes : List (String × SocketType × Literal) :=
  [("FLOAT", .float, .float 0), ("INT", .int, .int 0), ("VECTOR", .vector, .vector 0 0 0),
    ("STRING", .string, .text ""), ("RGBA", .color, .color 0.8 0.8 0.8 1)]

/-- The two compared values, once for each type. -/
def comparedInputs : List Socket :=
  comparedTypes.flatMap fun (dataType, type, value) =>
    ["A", "B"].map fun name =>
      (Socket.input name type (some value)).onlyWhen (whenDataType dataType)

/-- Comparing, choosing and converting nodes. -/
def utilityKinds : List KindSpec :=
  [{ id := "FunctionNodeCompare", name := "Compare", category := .utilities
     inputs :=
       comparedInputs ++
         [(float "Epsilon" 0.001).onlyWhen (.oneOf "operation" ["EQUAL", "NOT_EQUAL"])]
     outputs := [.output "Result" .bool]
     properties :=
       [.enumeration "data_type" ["FLOAT", "INT", "VECTOR", "STRING", "RGBA"],
         .enumeration "operation" compareOperations] },
    { id := "FunctionNodeBooleanMath", name := "Boolean Math", category := .utilities
      inputs :=
        [boolean "Boolean" false, (boolean "Boolean" false).onlyWhen (.noneOf "operation" ["NOT"])]
      outputs := [.output "Boolean" .bool]
      properties := [.enumeration "operation" booleanOperations] },
    { id := "FunctionNodeRandomValue", name := "Random Value", category := .utilities
      inputs :=
        [(vector "Min" 0 0 0).onlyWhen (whenDataType "FLOAT_VECTOR"),
          (vector "Max" 1 1 1).onlyWhen (whenDataType "FLOAT_VECTOR"),
          (float "Min" 0).onlyWhen (whenDataType "FLOAT"),
          (float "Max" 1).onlyWhen (whenDataType "FLOAT"),
          (int "Min" 0).onlyWhen (whenDataType "INT"),
          (int "Max" 100).onlyWhen (whenDataType "INT"),
          (float "Probability" 0.5).onlyWhen (whenDataType "BOOLEAN"),
          implicitField "ID" .int, int "Seed" 0]
      outputs := (fieldOutputs "Value").filter fun socket => socket.type ≠ .color
      properties := [.enumeration "data_type" ["FLOAT", "INT", "FLOAT_VECTOR", "BOOLEAN"]] }]

end NodeScript.Catalog

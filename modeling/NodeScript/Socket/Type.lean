import NodeScript.Socket.Literal

/-!
# Socket types

What a port carries, which types convert into which along a link, and which literals a socket holds.
-/

namespace NodeScript

/-- Type of a port's values. -/
inductive SocketType where
  | float
  | int
  | bool
  | vector
  | color
  | rotation
  | string
  | geometry
  | menu
  | material
  | object
  | collection
  | image
  | texture
  | custom (className : String)
deriving DecidableEq, Repr

namespace SocketType

/-- Every type but the custom ones. -/
def standard : List SocketType :=
  [.float, .int, .bool, .vector, .color, .rotation, .string, .geometry, .menu, .material, .object,
    .collection, .image, .texture]

/-- Lead of class names. -/
def classStem : String := "NodeSocket"

/-- Name in scripts: the class name without its stem. -/
def typeName : SocketType → String
  | .float => "Float"
  | .int => "Int"
  | .bool => "Bool"
  | .vector => "Vector"
  | .color => "Color"
  | .rotation => "Rotation"
  | .string => "String"
  | .geometry => "Geometry"
  | .menu => "Menu"
  | .material => "Material"
  | .object => "Object"
  | .collection => "Collection"
  | .image => "Image"
  | .texture => "Texture"
  | .custom className =>
    if classStem.toList.isPrefixOf className.toList then
      String.ofList (className.toList.drop classStem.length)
    else className

/-- Name of the socket class. -/
def className : SocketType → String
  | .custom className => className
  | type => classStem ++ type.typeName

/-- Name among the data types of comparing nodes. -/
def dataType : SocketType → String
  | .float => "FLOAT"
  | .int => "INT"
  | .bool => "BOOLEAN"
  | .vector => "VECTOR"
  | .color => "RGBA"
  | .rotation => "ROTATION"
  | .string => "STRING"
  | .geometry => "GEOMETRY"
  | .menu => "MENU"
  | .material => "MATERIAL"
  | .object => "OBJECT"
  | .collection => "COLLECTION"
  | .image => "IMAGE"
  | .texture => "TEXTURE"
  | .custom _ => "CUSTOM"

/-- Whether values are vectors. -/
def isVector : SocketType → Bool
  | .vector => true
  | _ => false

/-- Whether interface entries of the type have a lower and an upper bound. -/
def hasBounds : SocketType → Bool
  | .float | .int | .vector => true
  | _ => false

/-- Implicit conversions between different types. -/
def converts : SocketType → SocketType → Bool
  | .int, .float | .bool, .float | .float, .int | .bool, .int | .float, .bool | .int, .bool => true
  | .float, .vector | .int, .vector | .bool, .vector => true
  | .float, .color | .int, .color | .bool, .color => true
  | .vector, .float | .color, .float => true
  | .vector, .color | .vector, .rotation | .color, .vector | .rotation, .vector => true
  | _, _ => false

/-- Whether a link may run from a socket of one type to a socket of the other. -/
def connectsTo (source target : SocketType) : Bool := source = target || source.converts target

/-- The literal a socket of the type holds when it is given `value`. -/
def coerce? : SocketType → Literal → Option Literal
  | .float, .float v => some (.float v)
  | .float, .int v => some (.float (Single.ofInt v.toInt))
  | .int, .int v => some (.int v)
  | .bool, .bool v => some (.bool v)
  | .vector, .vector x y z => some (.vector x y z)
  | .rotation, .vector x y z => some (.vector x y z)
  | .color, .color r g b a => some (.color r g b a)
  | .string, .text v => some (.text v)
  | .menu, .text v => some (.text v)
  | _, _ => none

end SocketType

/-- The type of socket a literal belongs to. -/
def Literal.socketType : Literal → SocketType
  | .bool _ => .bool
  | .int _ => .int
  | .float _ => .float
  | .vector .. => .vector
  | .color .. => .color
  | .text _ => .string

end NodeScript

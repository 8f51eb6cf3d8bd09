import NodeScript.OrderedMap
import NodeScript.Socket.Type

/-!
# Socket classes

Class names, among them the variants of a base class such as `NodeSocketFloatDistance`, and the
socket type each stands for.
-/

namespace NodeScript

/-- Known socket classes by name. -/
structure SocketClasses where
  types : OrderedMap String SocketType

namespace SocketClasses

/-- Variants share the type of their base class. -/
def variants : List (String × SocketType) :=
  [("NodeSocketFloatUnsigned", .float), ("NodeSocketFloatPercentage", .float),
    ("NodeSocketFloatFactor", .float), ("NodeSocketFloatAngle", .float),
    ("NodeSocketFloatTime", .float), ("NodeSocketFloatTimeAbsolute", .float),
    ("NodeSocketFloatDistance", .float), ("NodeSocketIntUnsigned", .int),
    ("NodeSocketIntPercentage", .int), ("NodeSocketIntFactor", .int),
    ("NodeSocketVectorTranslation", .vector), ("NodeSocketVectorDirection", .vector),
    ("NodeSocketVectorVelocity", .vector), ("NodeSocketVectorAcceleration", .vector),
    ("NodeSocketVectorEuler", .vector), ("NodeSocketVectorXYZ", .vector),
    ("NodeSocketColorGamma", .color)]

def standard : SocketClasses where
  types := OrderedMap.ofList ((SocketType.standard.map fun t => (t.className, t)) ++ variants)

/-- Give a class a type. -/
def register (classes : SocketClasses) (className : String) (type : SocketType) : SocketClasses :=
  { types := classes.types.insert className type }

/-- Type of a class name, or of a name that lacks only the stem. -/
def resolve? (classes : SocketClasses) (name : String) : Option SocketType :=
  (classes.types.get? name).or (classes.types.get? (SocketType.classStem ++ name))

end SocketClasses

/-- Labels that interface entries of a type may carry. -/
def SocketType.subtypes : SocketType → List String
  | .int => ["NONE", "PERCENTAGE", "FACTOR"]
  | .float => ["NONE", "PERCENTAGE", "FACTOR", "ANGLE", "TIME", "TIME_ABSOLUTE", "DISTANCE"]
  | .vector => ["NONE", "TRANSLATION", "VELOCITY", "ACCELERATION", "EULER", "XYZ"]
  | _ => []

end NodeScript

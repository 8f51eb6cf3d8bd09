import NodeScript.Number.Decimal
import NodeScript.Text.Quoted

/-!
# Literal values

The values a socket can hold without a link.
-/

namespace NodeScript

/-- A value without a node. -/
inductive Literal where
  | bool (value : Bool)
  | int (value : Int32)
  | float (value : Single)
  | vector (x y z : Single)
  | color (r g b a : Single)
  | text (value : String)
deriving DecidableEq, Repr

namespace Literal

/-- Numeric equality of literals: zeros are equal and a NaN differs from everything. -/
def same : Literal → Literal → Bool
  | .bool a, .bool b => a == b
  | .int a, .int b => a == b
  | .float a, .float b => a.same b
  | .vector x y z, .vector x' y' z' => x.same x' && y.same y' && z.same z'
  | .color r g b a, .color r' g' b' a' => r.same r' && g.same g' && b.same b' && a.same a'
  | .text a, .text b => a == b
  | _, _ => false

def boolText (value : Bool) : String := if value then "true" else "false"

def intText (value : Int32) : String := toString value.toInt

def floatsText (values : List Single) : String :=
  "[" ++ Text.join ", " (values.map NumberStyle.script.text) ++ "]"

/-- The literal with its kind, as messages show it. -/
def describe : Literal → String
  | .bool v => "Bool(" ++ boolText v ++ ")"
  | .int v => "Int(" ++ intText v ++ ")"
  | .float v => "Float(" ++ NumberStyle.script.text v ++ ")"
  | .vector x y z => "Vector(" ++ floatsText [x, y, z] ++ ")"
  | .color r g b a => "Color(" ++ floatsText [r, g, b, a] ++ ")"
  | .text v => "String(" ++ Text.quoted v ++ ")"

end Literal

end NodeScript

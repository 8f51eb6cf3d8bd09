import NodeScript.Json
import NodeScript.Script.Program

/-!
# Programs as JSON
-/

namespace NodeScript.Script

/-- A number; there is no text for infinity and NaN. -/
def singleJson (value : Single) : Json :=
  if value.isFinite then .number (NumberStyle.json.text value) else .null

/-- A value behind its case. -/
def taggedJson (tag : String) (value : Json) : Json := .object [(tag, value)]

/-- A literal with its type. -/
def literalJson : Literal → Json
  | .bool v => taggedJson "Bool" (.bool v)
  | .int v => taggedJson "Int" (.number (Literal.intText v))
  | .float v => taggedJson "Float" (singleJson v)
  | .vector x y z => taggedJson "Vector" (.list ([x, y, z].map singleJson))
  | .color r g b a => taggedJson "Color" (.list ([r, g, b, a].map singleJson))
  | .text v => taggedJson "String" (.text v)

mutual

/-- A value with its form. -/
def Value.toJson : Value → Json
  | .literal v => literalJson v
  | .list items => taggedJson "List" (.list (Value.allToJson items))
  | .name n => taggedJson "Name" (.text n)
  | .select base output => taggedJson "Attr" (.list [.text base, .text output])

def Value.allToJson : List Value → List Json
  | [] => []
  | value :: values => value.toJson :: Value.allToJson values

end

/-- Fields of a parameter. -/
def Parameter.toJson (param : Parameter) : Json :=
  .object [("name", .text param.name), ("type_name", .text param.typeName),
    ("default", (param.default.map Value.toJson).getD .null)]

/-- Names with their values. -/
def argsJson (args : List (String × Value)) : Json :=
  .list (args.map fun (name, value) => .list [.text name, value.toJson])

/-- Word for the zone. -/
def ZoneKind.label : ZoneKind → String
  | .repetition => "Repeat"
  | .simulation => "Simulation"

mutual

/-- A statement with its form. -/
def Statement.toJson : Statement → Json
  | .call target function args =>
    taggedJson "Call" (.object
      [("target", .text target), ("function", .text function), ("args", argsJson args)])
  | .zone target kind items args body next =>
    taggedJson "Zone" (.object
      [("target", .text target), ("kind", .text kind.label),
        ("items", .list (items.map Parameter.toJson)), ("args", argsJson args),
        ("body", .list (Statement.allToJson body)), ("next", .list (Value.allToJson next))])

def Statement.allToJson : List Statement → List Json
  | [] => []
  | statement :: rest => statement.toJson :: Statement.allToJson rest

end

/-- Fields of a program. -/
def Program.toJson (program : Program) : Json :=
  .object [("name", .text program.name), ("params", .list (program.params.map Parameter.toJson)),
    ("statements", .list (Statement.allToJson program.statements)),
    ("returns", argsJson program.returns)]

end NodeScript.Script

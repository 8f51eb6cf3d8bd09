import NodeScript.Script.Program

/-!
# Script text

Programs print with one statement per line and four blanks per nesting level. A zone prints as a
decorated step function followed by the call that binds its outputs.
-/

namespace NodeScript.Script

/-- Escape of one character inside a script string. -/
def escapeChar (c : Char) : List Char :=
  if c = '\\' ∨ c = '"' then ['\\', c]
  else if c = '\n' then ['\\', 'n']
  else [c]

/-- Quoted script string. -/
def quote (text : String) : String :=
  String.ofList ('"' :: text.toList.flatMap escapeChar ++ ['"'])

/-- Numbers in brackets. -/
def floats (values : List Single) : String :=
  "(" ++ Text.join ", " (values.map NumberStyle.script.text) ++ ")"

/-- A literal as it is written. -/
def literalText : Literal → String
  | .bool v => if v then "True" else "False"
  | .int v => Literal.intText v
  | .float v => NumberStyle.script.text v
  | .vector x y z => floats [x, y, z]
  | .color r g b a => floats [r, g, b, a]
  | .text v => quote v

mutual

/-- A value as it is written. -/
def Value.render : Value → String
  | .literal v => literalText v
  | .list items => "[" ++ Text.join ", " (Value.renderAll items) ++ "]"
  | .name n => n
  | .select base output => base ++ "." ++ output

def Value.renderAll : List Value → List String
  | [] => []
  | value :: values => value.render :: Value.renderAll values

end

/-- A parameter as it is written. -/
def Parameter.render (param : Parameter) : String :=
  param.name ++ ": " ++ param.typeName ++
    match param.default with
    | none => ""
    | some value => " = " ++ value.render

def renderParams (params : List Parameter) : String :=
  Text.join ", " (params.map Parameter.render)

def renderArgs (args : List (String × Value)) : String :=
  Text.join ", " (args.map fun (name, value) => name ++ "=" ++ value.render)

/-- Indentation at a nesting depth. -/
def indent : Nat → String
  | 0 => ""
  | depth + 1 => "    " ++ indent depth

/-- Parameters of a zone's step function: a simulation passes the elapsed time first. -/
def stepParams (kind : ZoneKind) (items : List Parameter) : List Parameter :=
  match kind with
  | .repetition => items
  | .simulation => ⟨deltaTime, "Float", none⟩ :: items

/-- A call on its line. -/
def renderCall (depth : Nat) (target function : String) (args : List (String × Value)) : String :=
  indent depth ++ target ++ " = " ++ function ++ "(" ++ renderArgs args ++ ")\n"

/-- Text of a zone around the text of its body. -/
def renderZone (depth : Nat) (target : String) (kind : ZoneKind) (items : List Parameter)
    (args : List (String × Value)) (body : String) (next : List Value) : String :=
  indent depth ++ "@" ++ kind.decorator ++ "\n" ++
  indent depth ++ "def " ++ stepName target ++ "(" ++ renderParams (stepParams kind items) ++ "):\n" ++
  body ++
  indent depth ++ "    return (" ++ Text.join ", " (Value.renderAll next) ++ ")\n" ++
  renderCall depth target (stepName target) args

mutual

/-- A statement at a depth. -/
def Statement.render (depth : Nat) : Statement → String
  | .call target function args => renderCall depth target function args
  | .zone target kind items args body next =>
    renderZone depth target kind items args (Statement.renderBody (depth + 1) body) next

/-- Statements at a depth. -/
def Statement.renderBody (depth : Nat) : List Statement → String
  | [] => ""
  | statement :: rest => statement.render depth ++ Statement.renderBody depth rest

end

/-- The returned values. -/
def renderReturns : List (String × Value) → String
  | [] => "    return \x7b\x7d\n"
  | returns =>
    "    return \x7b " ++
      Text.join ", " (returns.map fun (key, value) => quote key ++ ": " ++ value.render) ++
      " \x7d\n"

/-- Script text of a program. -/
def Program.render (program : Program) : String :=
  "from geometry_script import *\n\n@tree(" ++ quote program.name ++ ")\n" ++
    "def " ++ program.functionName ++ "(" ++ renderParams program.params ++ "):\n" ++
    Statement.renderBody 1 program.statements ++ renderReturns program.returns

end NodeScript.Script

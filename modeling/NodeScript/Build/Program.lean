import NodeScript.Build.Graph
import NodeScript.Build.Zone
import NodeScript.Script.Printer

/-!
# Building programs

A program builds the graph it is named after: its parameters are the signature, its statements the
body.
-/

namespace NodeScript.Script

/-- Results of calls by the names they are bound to. -/
abbrev Environment := OrderedMap String CallResult

namespace Environment

/-- What the name stands for. -/
def lookup (environment : Environment) (name : String) : Except BuildError CallResult :=
  match environment.get? name with
  | some result => .ok result
  | none => .error (.unknownName name)

mutual

/-- The argument that a value stands for. -/
def argument (environment : Environment) : Value → Except BuildError Argument
  | .literal value => .ok (.literal value)
  | .list items => do return .list (← arguments environment items)
  | .name name => do return .expr (← (← environment.lookup name).only)
  | .select name output => do return .expr (← (← environment.lookup name).output output)

def arguments (environment : Environment) : List Value → Except BuildError (List Argument)
  | [] => .ok []
  | value :: rest => do
    let first ← argument environment value
    return first :: (← arguments environment rest)

end

/-- The single value that a value stands for. -/
def operand (environment : Environment) (value : Value) : Except BuildError Operand := do
  match ← environment.argument value with
  | .expr source => return .expr source
  | .literal value => return .literal value
  | _ => throw (.argumentShape value.render .notSingle)

/-- Evaluate named arguments; the last of a name counts. -/
def namedArguments (environment : Environment) :
    List (String × Value) → Arguments → Except BuildError Arguments
  | [], arguments => .ok arguments
  | (name, value) :: rest, arguments => do
    let first ← environment.argument value
    namedArguments environment rest (arguments.insert name first)

/-- Number of iterations and initial state of a zone. Only a repetition has iterations, once unless
it is said otherwise. -/
def zoneArguments (environment : Environment) (kind : ZoneKind) :
    List (String × Value) → Operand → Arguments → Except BuildError (Operand × Arguments)
  | [], iterations, initial => .ok (iterations, initial)
  | (name, value) :: rest, iterations, initial => do
    if kind = .repetition ∧ name = iterationsArgument then
      zoneArguments environment kind rest (← environment.operand value) initial
    else
      zoneArguments environment kind rest iterations
        (initial.insert name (← environment.argument value))

/-- Bind the state of a zone. -/
def withInputs (environment : Environment) (inputs : Inputs) : Environment :=
  inputs.entries.foldl (fun environment (name, input) =>
    match input with
    | .value source => environment.insert name (.single source)
    | .group _ => environment) environment

end Environment

/-- The parameter as a zone item. -/
def Parameter.item (parameter : Parameter) : Param :=
  { name := parameter.name, typeName := parameter.typeName }

mutual

/-- Carry out a statement; gives the result that its target is bound to. -/
def Statement.build (session : Session) (environment : Environment) :
    Statement → BuildM CallResult
  | .call _ function args => do
    let arguments ← Build.ofExcept (environment.namedArguments args ∅)
    Build.call session function none arguments
  | .zone _ kind items args body next => do
    let (iterations, initial) ← Build.ofExcept
      (environment.zoneArguments kind args (.literal (.int 1)) ∅)
    let step (state : Inputs) : BuildM (List Operand) := do
      let inner ← Statement.buildAll session (environment.withInputs state) body
      Build.ofExcept (next.mapM inner.operand)
    match kind with
    | .repetition =>
      Build.repetition session iterations (items.map Parameter.item) initial step
    | .simulation => Build.simulation session (items.map Parameter.item) initial step

/-- Carry out statements one after another. -/
def Statement.buildAll (session : Session) (environment : Environment) :
    List Statement → BuildM Environment
  | [] => pure environment
  | statement :: rest => do
    let result ← Statement.build session environment statement
    Statement.buildAll session (environment.insert statement.target result) rest

end

namespace Program

/-- The parameter declarations; defaults have to be literals. -/
def signature : List Parameter → Except BuildError Signature
  | [] => .ok []
  | parameter :: rest => do
    let default ← match parameter.default with
      | none => pure none
      | some value =>
        match value.literal? with
        | some literal => pure (some literal)
        | none => throw (.configuration parameter.name (.defaultNotLiteral value.render))
    return .param { parameter.item with default } :: (← signature rest)

/-- The parameters as bindings. -/
def environment (inputs : Inputs) :
    List Parameter → Environment → Except BuildError Environment
  | [], environment => .ok environment
  | parameter :: rest, bound => do
    let source ← inputs.value parameter.name
    environment inputs rest (bound.insert parameter.name (.single source))

/-- Evaluate what the program returns. -/
def results (environment : Environment) :
    List (String × Value) → Except BuildError (List (String × Operand))
  | [] => .ok []
  | (key, value) :: rest => do
    let operand ← environment.operand value
    return (key, operand) :: (← results environment rest)

/-- The body of a program as a graph body. -/
def body (session : Session) (program : Program) (inputs : Inputs) : BuildM Returns := do
  let bound ← Build.ofExcept (environment inputs program.params ∅)
  let bound ← Statement.buildAll session bound program.statements
  return .named (← Build.ofExcept (results bound program.returns))

/-- Build the graph that a program is named after. -/
def build (session : Session) (program : Program) : BuildM Unit := do
  let signature ← Build.ofExcept (signature program.params)
  Build.build session program.name signature (program.body session)

end Program

end NodeScript.Script

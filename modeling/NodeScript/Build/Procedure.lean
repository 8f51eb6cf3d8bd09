import NodeScript.Build.Graph
import NodeScript.Build.Operator
import NodeScript.Build.Zone

/-!
# Procedures

Bodies of graphs and zones as data. A procedure is a list of steps over named registers; each step
reports what it did. A step that is only attempted may fail, any other failure ends the procedure.
-/

namespace NodeScript

/-- Where an operand comes from. -/
inductive OperandSource where
  | register (name : String) (output : Option String)
  | literal (value : Literal)

/-- Where an argument comes from. -/
inductive ArgumentSource where
  | operand (source : OperandSource)
  | list (items : List ArgumentSource)
  | choice (chosen : String)
  | group (register : String)

/-- Where the results of a body come from. -/
inductive ReturnSource where
  | single (value : OperandSource)
  | tuple (values : List OperandSource)
  | named (values : List (String × OperandSource))
  | staged (values : List OperandSource)
  | call (register : String)

/-- Which input of a node. -/
inductive InputPlace where
  | named (name : String)
  | position (position : Nat)

/-- What is done with an attribute. -/
inductive AttributeUse where
  | read
  | isPresent
  | store (geometry value : OperandSource)

mutual

/-- What a step does. -/
inductive Action where
  | call (function : String) (primary : Option OperandSource)
      (arguments : List (String × ArgumentSource))
  | lower (kind : String) (primary : Option OperandSource)
      (arguments : List (String × ArgumentSource))
  | callGraph (graph : String) (primary : Option OperandSource)
      (arguments : List (String × ArgumentSource))
  | constant (value : Literal)
  | arithmetic (op : MathOp) (self other : OperandSource)
  | reflected (op : MathOp) (self other : OperandSource)
  | compare (op : CompareOp) (self other : OperandSource)
  | logic (op : BooleanOp) (self : OperandSource) (other : Option OperandSource)
  | boolean (op : BooleanOp) (self : OperandSource) (other : Option OperandSource)
  | component (axis : Axis) (self : OperandSource)
  | sample (self geometry : OperandSource) (mode : SampleMode) (key : Option OperandSource)
      (domain : Option String)
  | iterate (self : OperandSource)
  | named (self : Attribute) (use : AttributeUse)
  | repetition (iterations : OperandSource) (items : List Param)
      (initial : List (String × ArgumentSource)) (body : List Step) (next : List OperandSource)
  | simulation (items : List Param) (initial : List (String × ArgumentSource))
      (body : List Step) (next : List OperandSource)
  | build (name : String) (signature : Signature) (body : List Step) (returns : ReturnSource)
  | input (name : String)
  | group (name : String)
  | active
  | node (kind : String)
  | setProperty (node name : String) (value : PropertyValue)
  | setDefault (node : String) (position : Nat) (value : Literal)
  | bind (node : String) (place : InputPlace) (value : OperandSource)
  | bindArguments (node : String) (primary : Option OperandSource)
      (arguments : List (String × ArgumentSource))
  | callResult (node : String)
  | output (node : String) (position : Nat)
  | firstOutput (node : String)
  | enabledInputs (node : String)

/-- An action, where its outcome goes, and whether its failure is let pass. -/
inductive Step where
  | step (attempt : Bool) (target : Option String) (action : Action)

end

/-- What a register holds. -/
inductive Register where
  | result (result : CallResult)
  | group (group : GroupValue)
  | node (id : NodeId)

/-- Registers, those set last first. -/
abbrev Registers := List (String × Register)

namespace Registers

/-- The register of the name. -/
def get (registers : Registers) (name : String) : Except BuildError Register :=
  match registers.find? fun entry => entry.1 = name with
  | some (_, register) => .ok register
  | none => .error (.unknownName name)

/-- The value that a register gives, or one of its outputs or fields. -/
def operand (registers : Registers) : OperandSource → Except BuildError Operand
  | .literal value => .ok (.literal value)
  | .register name output => do
    match ← registers.get name, output with
    | .result result, none => return .expr (← result.only)
    | .result result, some output => return .expr (← result.output output)
    | .group group, some field =>
      match group.fields.get? field with
      | some expr => return .expr expr
      | none => throw (.unknownName field)
    | _, _ => throw (.unknownName name)

/-- An operand that is a node output. -/
def expr (registers : Registers) (source : OperandSource) : Except BuildError Expr := do
  match ← registers.operand source with
  | .expr expr => return expr
  | .literal value => throw (.unrepresentable value)

/-- Evaluate what there is. -/
def optional {α β : Type} (f : α → Except BuildError β) : Option α → Except BuildError (Option β)
  | none => .ok none
  | some a => do return some (← f a)

mutual

/-- Evaluate an argument. -/
def argument (registers : Registers) : ArgumentSource → Except BuildError Argument
  | .operand source => do return .ofOperand (← registers.operand source)
  | .list items => do return .list (← argumentList registers items)
  | .choice chosen => .ok (.choice chosen)
  | .group name => do
    match ← registers.get name with
    | .group group => return .group group
    | _ => throw (.unknownName name)

def argumentList (registers : Registers) :
    List ArgumentSource → Except BuildError (List Argument)
  | [] => .ok []
  | item :: rest => do
    let first ← argument registers item
    return first :: (← argumentList registers rest)

end

/-- Evaluate named arguments; the last of a name counts. -/
def arguments (registers : Registers) :
    List (String × ArgumentSource) → Arguments → Except BuildError Arguments
  | [], arguments => .ok arguments
  | (name, source) :: rest, given => do
    let first ← registers.argument source
    arguments registers rest (given.insert name first)

/-- Evaluate what the procedure returns. -/
def returns (registers : Registers) : ReturnSource → Except BuildError Returns
  | .single value => do return .single (← registers.operand value)
  | .tuple values => do return .tuple (← values.mapM registers.operand)
  | .named values => do
    return .named (← values.mapM fun (name, value) => do
      return (name, ← registers.operand value))
  | .staged values => do return .staged (← values.mapM registers.operand)
  | .call name => do
    match ← registers.get name with
    | .result result => return .ofCall result
    | _ => throw (.unknownName name)

/-- The node of a register; that of its first output for a result. -/
def node (registers : Registers) (name : String) : Except BuildError NodeId := do
  match ← registers.get name with
  | .node id => return id
  | .result result =>
    match result.exprs with
    | expr :: _ => return expr.node
    | [] => throw (.unknownName name)
  | .group _ => throw (.unknownName name)

/-- Set registers to the inputs of a body. -/
def withInputs (registers : Registers) (inputs : Inputs) : Registers :=
  inputs.entries.foldl (fun registers (name, input) =>
    (name, match input with
      | .value expr => .result (.single expr)
      | .group group => .group group) :: registers) registers

end Registers

/-- What an action gives. -/
inductive Outcome where
  | result (result : CallResult)
  | iteration (index points : Expr)
  | built (graph : String)
  | group (group : GroupValue)
  | active (graph : String) (depth : Nat)
  | node (id : NodeId)
  | enabled (positions : List Nat)
  | done

namespace Outcome

def single (expr : Expr) : Outcome := .result (.single expr)

/-- Report an outcome by its places. -/
def report (outcome : Outcome) : BuildM Unit := do
  let build ← get
  match outcome with
  | .result outputs => Build.report (build.store.showResult outputs)
  | .iteration index points =>
    Build.report (.iteration (build.store.place index) (build.store.place points))
  | .built graph => Build.report (.built graph)
  | .group bundle => Build.report (.group bundle.name bundle.fields.keys)
  | .active graph depth => Build.report (.active graph depth)
  | .node id => Build.report (.node ((← Build.graph).nodeNumber id))
  | .enabled positions => Build.report (.enabled positions)
  | .done => Build.report .done

/-- Set the target register. -/
def assign (outcome : Outcome) (target : Option String) (registers : Registers) : Registers :=
  match target, outcome with
  | some name, .result outputs => (name, .result outputs) :: registers
  | some name, .iteration index points =>
    (name ++ "_index", .result (.single index)) ::
      (name ++ "_points", .result (.single points)) :: registers
  | some name, .group bundle => (name, .group bundle) :: registers
  | some name, .node id => (name, .node id) :: registers
  | _, _ => registers

end Outcome

namespace Build

/-- Positions of the enabled inputs among all inputs. -/
def enabledPositions (id : NodeId) : BuildM (List Nat) := do
  let enabled ← enabledInputs id
  let all := (← node id).inputs.map Port.id
  return enabled.map all.idxOf

/-- Find an input by its place. -/
def inputPort (id : NodeId) : InputPlace → BuildM PortId
  | .named name => inputNamed id name
  | .position position => inputAt id position

end Build

mutual

/-- Carry out an action. Everything it reads from registers is read first. -/
def Action.run (session : Session) (inputs : Inputs) (registers : Registers) :
    Action → BuildM Outcome
  | .call function primary arguments => do
    let primary ← Build.ofExcept (Registers.optional registers.expr primary)
    let arguments ← Build.ofExcept (registers.arguments arguments ∅)
    return .result (← Build.call session function primary arguments)
  | .lower kind primary arguments => do
    let primary ← Build.ofExcept (Registers.optional registers.expr primary)
    let arguments ← Build.ofExcept (registers.arguments arguments ∅)
    return .result (← Build.lower session kind primary arguments)
  | .callGraph graph primary arguments => do
    let primary ← Build.ofExcept (Registers.optional registers.expr primary)
    let arguments ← Build.ofExcept (registers.arguments arguments ∅)
    return .result (← Build.callGraph session graph primary arguments)
  | .constant value => do return .single (← Build.constant session value)
  | .arithmetic op self other => do
    let self ← Build.ofExcept (registers.expr self)
    let other ← Build.ofExcept (registers.operand other)
    return .single (← Build.arithmetic session op self other)
  | .reflected op self other => do
    let self ← Build.ofExcept (registers.expr self)
    let other ← Build.ofExcept (registers.operand other)
    return .single (← Build.reflected session op self other)
  | .compare op self other => do
    let self ← Build.ofExcept (registers.expr self)
    let other ← Build.ofExcept (registers.operand other)
    return .single (← Build.compare session op self other)
  | .logic op self other => do
    let self ← Build.ofExcept (registers.expr self)
    let other ← Build.ofExcept (Registers.optional registers.operand other)
    return .single (← Build.boolean session op self other)
  | .boolean op self other => do
    let other ← Build.ofExcept (Registers.optional registers.operand other)
    let self ← Build.ofExcept (registers.expr self)
    return .single (← Build.boolean session op self other)
  | .component axis self => do
    let self ← Build.ofExcept (registers.expr self)
    return .single (← Build.component session axis self)
  | .sample self geometry mode key domain => do
    let geometry ← Build.ofExcept (registers.expr geometry)
    let key ← Build.ofExcept (Registers.optional registers.operand key)
    let self ← Build.ofExcept (registers.expr self)
    return .single (← Build.sample session self geometry mode key domain)
  | .iterate self => do
    let self ← Build.ofExcept (registers.expr self)
    let (index, points) ← Build.iteratePoints session self
    return .iteration index points
  | .named self use => do
    match use with
    | .read => return .single (← self.read session)
    | .isPresent => return .single (← self.isPresent session)
    | .store geometry value =>
      let geometry ← Build.ofExcept (registers.expr geometry)
      let value ← Build.ofExcept (registers.operand value)
      return .single (← self.store session geometry value)
  | .repetition iterations items initial body next => do
    let initial ← Build.ofExcept (registers.arguments initial ∅)
    let iterations ← Build.ofExcept (registers.operand iterations)
    let step (state : Inputs) : BuildM (List Operand) := do
      Build.report ((← get).store.showInputs state)
      let inner ← Step.runAll session state (registers.withInputs state) body
      Build.ofExcept (next.mapM inner.operand)
    return .result (← Build.repetition session iterations items initial step)
  | .simulation items initial body next => do
    let initial ← Build.ofExcept (registers.arguments initial ∅)
    let step (state : Inputs) : BuildM (List Operand) := do
      Build.report ((← get).store.showInputs state)
      let inner ← Step.runAll session state (registers.withInputs state) body
      Build.ofExcept (next.mapM inner.operand)
    return .result (← Build.simulation session items initial step)
  | .build name signature body returns => do
    let procedure (given : Inputs) : BuildM Returns := do
      Build.report ((← get).store.showInputs given)
      let inner ← Step.runAll session given (registers.withInputs given) body
      Build.ofExcept (inner.returns returns)
    Build.build session name signature procedure
    return .built name
  | .input name => do return .single (← Build.ofExcept (inputs.value name))
  | .group name => do return .group (← Build.ofExcept (inputs.group name))
  | .active => do return .active (← Build.active) (← get).scopes.length
  | .node kind => do return .node (← Build.addNode session kind)
  | .setProperty node name value => do
    let id ← Build.ofExcept (registers.node node)
    Build.setProperty id name value
    return .done
  | .setDefault node position value => do
    let id ← Build.ofExcept (registers.node node)
    let port ← Build.inputAt id position
    Build.setDefault id port value
    return .done
  | .bind node place value => do
    let id ← Build.ofExcept (registers.node node)
    let operand ← Build.ofExcept (registers.operand value)
    let port ← Build.inputPort id place
    Build.bindOperand session operand id port
    return .done
  | .bindArguments node primary arguments => do
    let id ← Build.ofExcept (registers.node node)
    let primary ← Build.ofExcept (Registers.optional registers.expr primary)
    let arguments ← Build.ofExcept (registers.arguments arguments ∅)
    return .result (← Build.bindArguments session id primary arguments)
  | .callResult node => do
    let id ← Build.ofExcept (registers.node node)
    return .result (← Build.callResult id)
  | .output node position => do
    let id ← Build.ofExcept (registers.node node)
    return .single (← Build.outputAt id position)
  | .firstOutput node => do
    let id ← Build.ofExcept (registers.node node)
    return .single (← Build.firstOutput id)
  | .enabledInputs node => do
    let id ← Build.ofExcept (registers.node node)
    return .enabled (← Build.enabledPositions id)

/-- Carry out a step and report it. -/
def Step.run (session : Session) (inputs : Inputs) (registers : Registers) :
    Step → BuildM Registers
  | .step attempt target action =>
    tryCatch
      (do
        let outcome ← Action.run session inputs registers action
        outcome.report
        return outcome.assign target registers)
      (fun error => do
        Build.report (.failed error)
        if attempt then return registers else throw error)

/-- Carry out steps one after another. -/
def Step.runAll (session : Session) (inputs : Inputs) (registers : Registers) :
    List Step → BuildM Registers
  | [] => pure registers
  | step :: rest => do
    let registers ← Step.run session inputs registers step
    Step.runAll session inputs registers rest

end

end NodeScript

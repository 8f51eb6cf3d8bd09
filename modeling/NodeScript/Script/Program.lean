import NodeScript.Socket.Literal
import NodeScript.Text.Naming

/-!
# Programs

A program is the linear form of a graph: typed parameters, one statement per node with zones nested
inside, and named results.
-/

namespace NodeScript.Script

/-- A value in argument position. -/
inductive Value where
  | literal (value : Literal)
  | list (items : List Value)
  /-- A parameter, or the only output of a statement. -/
  | name (name : String)
  /-- One output of a statement. -/
  | select (base output : String)
deriving Repr

/-- A parameter of a program or zone. -/
structure Parameter where
  name : String
  typeName : String
  default : Option Value
deriving Repr

/-- The two zones. -/
inductive ZoneKind where
  | repetition
  | simulation
deriving DecidableEq, Repr

/-- Decorator naming the zone in script text. -/
def ZoneKind.decorator : ZoneKind → String
  | .repetition => "repeat_zone"
  | .simulation => "simulation_zone"

/-- One statement of a body. A zone holds its state items, the iteration count and initial values as
arguments, the statements of its step and the next value of every item. -/
inductive Statement where
  | call (target function : String) (args : List (String × Value))
  | zone (target : String) (kind : ZoneKind) (items : List Parameter)
      (args : List (String × Value)) (body : List Statement) (next : List Value)
deriving Repr

/-- A script. -/
structure Program where
  name : String
  params : List Parameter
  statements : List Statement
  returns : List (String × Value)
deriving Repr

/-- Argument carrying the iteration count of a repeat zone. -/
def iterationsArgument : String := "iterations"

/-- Step parameter that a simulation zone passes before its items. -/
def deltaTime : String := "delta_time"

/-- Name of the step function of the zone bound to `target`. -/
def stepName (target : String) : String := target ++ "_step"

/-- Function name the program is declared under. -/
def Program.functionName (program : Program) : String := snakeCase program.name

/-- Variable that is set. -/
def Statement.target : Statement → String
  | .call target .. => target
  | .zone target .. => target

/-- A value that is a literal. -/
def Value.literal? : Value → Option Literal
  | .literal value => some value
  | _ => none

/-! ## Equality with numbers compared by value -/

mutual

/-- Numeric equality of values. -/
def Value.same : Value → Value → Bool
  | .literal a, .literal b => a.same b
  | .list a, .list b => Value.sameList a b
  | .name a, .name b => a == b
  | .select a x, .select b y => a == b && x == y
  | _, _ => false

/-- Numeric equality of lists. -/
def Value.sameList : List Value → List Value → Bool
  | [], [] => true
  | a :: as, b :: bs => a.same b && Value.sameList as bs
  | _, _ => false

end

/-- Equal names with equal values. -/
def sameArgs : List (String × Value) → List (String × Value) → Bool
  | [], [] => true
  | (k, a) :: as, (l, b) :: bs => k == l && a.same b && sameArgs as bs
  | _, _ => false

/-- Numeric equality of parameters. -/
def Parameter.same (a b : Parameter) : Bool :=
  a.name == b.name && a.typeName == b.typeName &&
    match a.default, b.default with
    | none, none => true
    | some x, some y => x.same y
    | _, _ => false

def sameParams : List Parameter → List Parameter → Bool
  | [], [] => true
  | a :: as, b :: bs => a.same b && sameParams as bs
  | _, _ => false

mutual

/-- Numeric equality of statements. -/
def Statement.same : Statement → Statement → Bool
  | .call t f args, .call t' f' args' => t == t' && f == f' && sameArgs args args'
  | .zone t k items args body next, .zone t' k' items' args' body' next' =>
    t == t' && k == k' && sameParams items items' && sameArgs args args' &&
      Statement.sameBody body body' && Value.sameList next next'
  | _, _ => false

def Statement.sameBody : List Statement → List Statement → Bool
  | [], [] => true
  | a :: as, b :: bs => a.same b && Statement.sameBody as bs
  | _, _ => false

end

/-- Numeric equality of programs. -/
def Program.same (a b : Program) : Bool :=
  a.name == b.name && sameParams a.params b.params &&
    Statement.sameBody a.statements b.statements && sameArgs a.returns b.returns

end NodeScript.Script

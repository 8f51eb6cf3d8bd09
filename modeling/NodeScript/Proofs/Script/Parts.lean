import Mathlib.Data.List.Basic
import NodeScript.Script.Program

/-!
# Parts of programs

The statements of a program at all depths, with what they call, bind and nest.
-/

namespace NodeScript.Script

mutual

/-- A statement and all statements inside it. -/
def Statement.parts : Statement → List Statement
  | .call target function args => [.call target function args]
  | .zone target kind items args body next => .zone target kind items args body next :: Statement.partsIn body

/-- All statements of a body, at all depths. -/
def Statement.partsIn : List Statement → List Statement
  | [] => []
  | statement :: rest => statement.parts ++ Statement.partsIn rest

end

mutual

/-- Number of zones inside one another. -/
def Statement.depth : Statement → Nat
  | .call .. => 0
  | .zone _ _ _ _ body _ => Statement.depthIn body + 1

def Statement.depthIn : List Statement → Nat
  | [] => 0
  | statement :: rest => max statement.depth (Statement.depthIn rest)

end

mutual

/-- The literals, names and selections that a value is made of. -/
def Value.leaves : Value → List Value
  | .literal value => [.literal value]
  | .list items => Value.leavesIn items
  | .name found => [.name found]
  | .select base output => [.select base output]

def Value.leavesIn : List Value → List Value
  | [] => []
  | value :: rest => value.leaves ++ Value.leavesIn rest

end

theorem Value.mem_leavesIn {leaf : Value} {values : List Value} :
    leaf ∈ Value.leavesIn values ↔ ∃ value ∈ values, leaf ∈ value.leaves := by
  induction values with
  | nil => simp [Value.leavesIn]
  | cons value rest ih => simp [Value.leavesIn, ih]

theorem Value.leaves_subset {value : Value} {values : List Value} (h : value ∈ values) :
    value.leaves ⊆ Value.leavesIn values :=
  fun _ hleaf => Value.mem_leavesIn.mpr ⟨value, h, hleaf⟩

namespace Statement

/-- Items of a zone; a call has none. -/
def items : Statement → List Parameter
  | .call .. => []
  | .zone _ _ items _ _ _ => items

/-- Values that stand in the statement itself, not in the statements inside. -/
def values : Statement → List Value
  | .call _ _ args => args.map Prod.snd
  | .zone _ _ _ args _ next => args.map Prod.snd ++ next

/-- Whether the statement is a call of a function with arguments of some names among others. -/
def Calls (function : String) (names : List String) : Statement → Prop
  | .call _ called args => called = function ∧ names ⊆ args.map Prod.fst
  | .zone .. => False

theorem mem_parts_self (statement : Statement) : statement ∈ statement.parts := by
  cases statement with
  | call target function args => exact List.mem_singleton_self _
  | zone target kind items args body next => exact List.mem_cons_self

end Statement

namespace Program

/-- The statements of a program at all depths. -/
def parts (program : Program) : List Statement := Statement.partsIn program.statements

/-- Names of parameters. -/
def paramNames (program : Program) : List String := program.params.map Parameter.name

/-- Names of zone items at all depths. -/
def itemNames (program : Program) : List String :=
  program.parts.flatMap fun statement => statement.items.map Parameter.name

/-- Targets of statements at all depths. -/
def targets (program : Program) : List String := program.parts.map Statement.target

/-- Number of zones inside one another. -/
def depth (program : Program) : Nat := Statement.depthIn program.statements

/-- All values of a program: defaults, arguments and results. -/
def values (program : Program) : List Value :=
  program.params.filterMap Parameter.default ++
    program.parts.flatMap Statement.values ++ program.returns.map Prod.snd

/-- The literals, names and selections in a program. -/
def leaves (program : Program) : List Value := Value.leavesIn program.values

end Program

end NodeScript.Script

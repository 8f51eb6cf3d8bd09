import NodeScript.Graph.Layout

/-!
# Settings
-/

namespace NodeScript

/-- Choices of the user. -/
structure Settings where
  version : UInt32 := 1
  /-- Arrange the nodes after each build. -/
  autoLayout : Bool := true
  layout : LayoutOptions := {}
  /-- Name of results that have none of their own. -/
  outputName : String := "Result"
deriving DecidableEq, Repr

namespace Settings

/-- The newest settings format that is understood. -/
def formatVersion : UInt32 := 1

/-- Name of the result at a position; from the second on it is numbered. -/
def resultName (settings : Settings) (position : Nat) : String :=
  if position = 0 then settings.outputName
  else settings.outputName ++ " " ++ toString (position + 1)

end Settings

end NodeScript

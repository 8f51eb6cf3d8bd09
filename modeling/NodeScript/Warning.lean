import NodeScript.Graph.Layout

/-!
# Warnings

Things that are worth telling and stop nothing.
-/

namespace NodeScript

/-- What the user is told although nothing fails. -/
inductive Warning where
  | unknownArgument (name kind : String)
  | undeclaredItem (name : String)
  | layoutFailed (graph : String) (error : LayoutError)
  | entryWithoutExit (node : String)
  | unreachableSource (node : String)
deriving DecidableEq, Repr

namespace Warning

def message : Warning → String
  | .unknownArgument name kind => "Ignoring unknown argument '" ++ name ++ "' for " ++ kind
  | .undeclaredItem name => "Ignoring initial value for undeclared item '" ++ name ++ "'"
  | .layoutFailed graph error => "Layout of '" ++ graph ++ "' failed: " ++ error.message
  | .entryWithoutExit node => "Zone entry '" ++ node ++ "' is paired with a non-exit node"
  | .unreachableSource node => "Link from unreachable node '" ++ node ++ "' ignored"

/-- Where log lines say the warning comes from. -/
def origin : Warning → String
  | .unknownArgument .. => "geoscript_compiler::lower"
  | .undeclaredItem _ => "geoscript_compiler::zone"
  | .layoutFailed .. => "geoscript_compiler::scope"
  | .entryWithoutExit _ | .unreachableSource _ => "geoscript_compiler::decompile"

end Warning

end NodeScript

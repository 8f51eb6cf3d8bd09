import NodeScript.Build.Error
import NodeScript.Socket.Classes
import NodeScript.Text.Naming

/-!
# Signatures

A signature declares the inputs of a graph: plain parameters, and groups of parameters that the body
receives as one value. It resolves into interface declarations, one for each parameter.
-/

namespace NodeScript

/-- A parameter as it is declared. -/
structure Param where
  name : String
  /-- Name of a socket class, with or without the stem. -/
  typeName : String
  default : Option Literal := none
  lower : Option Single := none
  upper : Option Single := none
  subtype : Option String := none
  tooltip : String := ""
  hideInModifier : Bool := false
  /-- Name on the interface, instead of the one made from the script name. -/
  displayName : Option String := none
deriving DecidableEq, Repr

/-- Parameters under one name. -/
structure ParamGroup where
  name : String
  /-- Put before the fields' names on the interface. -/
  stem : Option String := none
  fields : List Param
deriving DecidableEq, Repr

/-- A parameter or a group of them. -/
inductive SignatureEntry where
  | param (param : Param)
  | group (group : ParamGroup)
deriving DecidableEq, Repr

/-- The parameters of a graph, in order. -/
abbrev Signature := List SignatureEntry

/-- A parameter that has been found valid. -/
structure ResolvedParam where
  /-- The group that the parameter is a field of. -/
  group : Option String
  key : String
  declaration : Declaration
deriving DecidableEq, Repr

namespace Param

/-- The declaration of a parameter, with `interfaceName` unless it has a display name. -/
def resolve (param : Param) (interfaceName : String) (classes : SocketClasses) :
    Except BuildError Declaration := do
  let fail {α : Type} (fault : ParamFault) : Except BuildError α :=
    .error (.configuration param.name fault)
  if param.typeName.isEmpty then fail .untyped
  let some type := classes.resolve? param.typeName | fail (.unknownType param.typeName)
  let default ← match param.default with
    | none => pure none
    | some value =>
      match type.coerce? value with
      | some value => pure (some value)
      | none => fail (.defaultMisfit value type)
  match param.subtype with
  | some subtype =>
    if !type.subtypes.contains subtype then fail (.subtypeMisfit subtype type)
  | none => pure ()
  return {
    name := param.displayName.getD interfaceName
    type
    default
    lower := if type.hasBounds then param.lower else none
    upper := if type.hasBounds then param.upper else none
    subtype := param.subtype
    tooltip := param.tooltip
    hideInModifier := param.hideInModifier }

end Param

namespace Signature

/-- Add a name to those in use; it must be new and not empty. -/
def takeName (names : List String) (name : String) : Except BuildError (List String) :=
  if name.isEmpty then .error (.configuration name .unnamed)
  else if name ∈ names then .error (.configuration name .declaredTwice)
  else .ok (name :: names)

/-- Name of a group's field on the interface. -/
def fieldName (group : ParamGroup) (field : Param) : String :=
  match group.stem with
  | some stem => titleCase (stem ++ "_" ++ field.name)
  | none => titleCase field.name

/-- Resolve the fields of a group. A field's name is taken before its type is looked at. -/
def resolveFields (classes : SocketClasses) (group : ParamGroup) :
    List Param → List String → Except BuildError (List ResolvedParam)
  | [], _ => .ok []
  | field :: rest, names => do
    let names ← takeName names field.name
    let declaration ← field.resolve (fieldName group field) classes
    let others ← resolveFields classes group rest names
    return ⟨some group.name, field.name, declaration⟩ :: others

/-- Resolve entries. A plain parameter's name is taken after its type has been looked at. -/
def resolveEntries (classes : SocketClasses) :
    Signature → List String → Except BuildError (List ResolvedParam)
  | [], _ => .ok []
  | .param param :: rest, names => do
    let declaration ← param.resolve (titleCase param.name) classes
    let names ← takeName names param.name
    let others ← resolveEntries classes rest names
    return ⟨none, param.name, declaration⟩ :: others
  | .group group :: rest, names => do
    let names ← takeName names group.name
    let fields ← resolveFields classes group group.fields []
    let others ← resolveEntries classes rest names
    return fields ++ others

/-- Interface declarations of a signature, or the first fault in it. -/
def validate (signature : Signature) (classes : SocketClasses) :
    Except BuildError (List ResolvedParam) :=
  resolveEntries classes signature []

end Signature

end NodeScript

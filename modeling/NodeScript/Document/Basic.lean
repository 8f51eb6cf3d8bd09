import NodeScript.OrderedMap

/-!
# Documents

The notation in which stores, catalogs and settings are kept: words, numbers, texts, lists, maps,
tuples and records. Tuples and records may have a name in front.
-/

namespace NodeScript

/-- How brackets are set around what they hold. -/
inductive Document.Brackets where
  | plain
  /-- Two commas stand behind the last entry. -/
  | trailing
  | missing
deriving DecidableEq, Repr

/-- A tree of values, as read or to be written. -/
inductive Document where
  /-- Brackets with nothing between them. -/
  | unit
  | flag (value : Bool)
  /-- A value that may be left out and is. -/
  | absent
  /-- A value that may be left out and is not. -/
  | present (brackets : Document.Brackets) (document : Document)
  | word (name : String)
  /-- A number as it is written. -/
  | number (digits : List Char)
  | byte (value : UInt8)
  | bytes (values : List UInt8)
  | text (value : String)
  | character (value : Char)
  | list (items : List Document)
  | map (entries : List (Document × Document))
  | tuple (brackets : Document.Brackets) (name : Option String) (items : List Document)
  | record (name : Option String) (fields : List (String × Document))

namespace Document

mutual

/-- How many levels a document takes up: one for a collection and one more for what it holds. -/
def levels : Document → Nat
  | .present _ document => document.levels + 1
  | .list items | .tuple _ _ items => itemLevels items + 1
  | .map entries => entryLevels entries + 1
  | .record _ fields => fieldLevels fields + 1
  | .unit | .flag _ | .absent | .word _ | .number _ | .byte _ | .bytes _ | .text _
  | .character _ => 0

/-- Depth of the deepest item. -/
def itemLevels : List Document → Nat
  | [] => 0
  | item :: rest => max (item.levels + 1) (itemLevels rest)

/-- Depth of the deepest entry. -/
def entryLevels : List (Document × Document) → Nat
  | [] => 0
  | (key, value) :: rest => max (max key.levels value.levels + 1) (entryLevels rest)

/-- Depth of the deepest field. -/
def fieldLevels : List (String × Document) → Nat
  | [] => 0
  | (_, value) :: rest => max (value.levels + 1) (fieldLevels rest)

end

/-- Whether brackets can be read without knowing what to expect in them. -/
def Brackets.isTidy : Brackets → Bool
  | .plain | .missing => true
  | .trailing => false

mutual

/-- Whether a document can be read without knowing what to expect. -/
def isTidy : Document → Bool
  | .present brackets document => brackets.isTidy && document.isTidy
  | .tuple brackets _ items => brackets.isTidy && itemsTidy items
  | .list items => itemsTidy items
  | .map entries => entriesTidy entries
  | .record _ fields => fieldsTidy fields
  | .unit | .flag _ | .absent | .word _ | .number _ | .byte _ | .bytes _ | .text _
  | .character _ => true

/-- Whether all items are tidy. -/
def itemsTidy : List Document → Bool
  | [] => true
  | item :: rest => item.isTidy && itemsTidy rest

/-- Whether all keys and values are tidy. -/
def entriesTidy : List (Document × Document) → Bool
  | [] => true
  | (key, value) :: rest => key.isTidy && value.isTidy && entriesTidy rest

/-- Whether all fields are tidy. -/
def fieldsTidy : List (String × Document) → Bool
  | [] => true
  | (_, value) :: rest => value.isTidy && fieldsTidy rest

end

/-- The name in front of a tuple. -/
def variantName? : Document → Option String
  | .tuple _ name _ => name
  | _ => none

/-- The name and the entries of a tuple without a comma too many. -/
def tuple? : Document → Option (Option String × List Document)
  | .tuple brackets name items => if brackets = .trailing then none else some (name, items)
  | _ => none

/-- Liberties and duties that a text may take on in its first lines. -/
structure Extensions where
  /-- A value that may be left out stands for itself. -/
  implicitSome : Bool := false
  /-- Identities stand without their brackets. -/
  unwrapNewtypes : Bool := false
  /-- What stands in the brackets of a variant or of an optional value has none of its own. -/
  unwrapVariantNewtypes : Bool := false
  /-- Every record has its name in front. -/
  explicitStructNames : Bool := false
deriving DecidableEq, Repr

/-- The circumstances under which a part of a document is understood. -/
structure Reading where
  extensions : Extensions := {}
  /-- Levels that the collections around the part take up. -/
  depth : Nat := 0
  /-- The brackets around the part stand for its own. -/
  bare : Bool := false

namespace Reading

/-- How many levels a text may take up. -/
def depthLimit : Nat := 128

/-- Further inside, where brackets are their own again. -/
def within (reading : Reading) (levels : Nat) : Reading :=
  { reading with depth := reading.depth + levels, bare := false }

/-- Inside an optional value, whose brackets may have to stand for those of what it holds. -/
def withinPresent (reading : Reading) (brackets : Brackets) : Reading :=
  { reading.within 1 with
    bare := brackets ≠ .missing && reading.extensions.unwrapVariantNewtypes }

/-- Whether a document that nobody asks for may stand here. -/
def admits (reading : Reading) (document : Document) : Bool :=
  reading.depth + document.levels ≤ depthLimit && document.isTidy

/-- Whether a collection may have the name in front of it, or go without. -/
def accepts (reading : Reading) (name : String) : Option String → Bool
  | some found => found = name
  | none => !reading.extensions.explicitStructNames

end Reading

end Document

end NodeScript

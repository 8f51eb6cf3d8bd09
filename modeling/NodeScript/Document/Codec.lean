import NodeScript.Document.Basic
import NodeScript.Document.Numeral
import NodeScript.Identity

/-!
# Codecs

Values of a type as documents, and back.
-/

namespace NodeScript

/-- How a value is written and read. -/
structure Codec (α : Type) where
  encode : α → Document
  decode : Document.Reading → Document → Option α

namespace Codec

variable {α β : Type}

/-- Writing and reading loses nothing, at any depth. -/
def Faithful (codec : Codec α) (a : α) : Prop :=
  ∀ depth, codec.decode { depth } (codec.encode a) = some a

def text : Codec String where
  encode := .text
  decode _
    | .text value => some value
    | _ => none

def bool : Codec Bool where
  encode := .flag
  decode _
    | .flag value => some value
    | _ => none

def uint32 : Codec UInt32 where
  encode value := .number (Nat.toDigits 10 value.toNat)
  decode _
    | .number digits => (Numeral.integer? (.unsigned 32) digits).map fun n => UInt32.ofNat n.toNat
    | _ => none

def int32 : Codec Int32 where
  encode value := .number (toString value.toInt).toList
  decode _
    | .number digits => (Numeral.integer? (.signed 32) digits).map Int32.ofInt
    | _ => none

/-- The shortest digits that read back. -/
def single : Codec Single where
  encode value := .number (NumberStyle.document.text value).toList
  decode _
    | .number digits => Numeral.single? digits
    | _ => none

/-- A value that may be left out. -/
def option (codec : Codec α) : Codec (Option α) where
  encode
    | none => .absent
    | some a => .present .plain (codec.encode a)
  decode reading
    | .absent => some none
    | .present brackets document =>
      (codec.decode (reading.withinPresent brackets) document).map some
    | document =>
      if reading.extensions.implicitSome then
        (codec.decode (reading.within 1) document).map some
      else none

/-- A sequence of values. -/
def list (codec : Codec α) : Codec (List α) where
  encode as := .list (as.map codec.encode)
  decode reading
    | .list items => items.mapM (codec.decode (reading.within 2))
    | _ => none

/-- Numbers side by side. -/
def singles (size : Nat) : Codec (List Single) where
  encode values := .tuple .plain none (values.map single.encode)
  decode reading document :=
    match document.tuple? with
    | some (none, items) =>
      if items.length = size then items.mapM (single.decode (reading.within 2)) else none
    | _ => none

/-- A repeated key keeps its place and takes the last value. -/
def orderedMap [DecidableEq α] (key : Codec α) (value : Codec β) : Codec (OrderedMap α β) where
  encode m := .map (m.entries.map fun (k, v) => (key.encode k, value.encode v))
  decode reading
    | .map entries => do
      let reading := reading.within 2
      let pairs ← entries.mapM fun (k, v) => do
        return (← key.decode reading k, ← value.decode reading v)
      return OrderedMap.ofList pairs
    | _ => none

/-- Values that are written as words. -/
def words (all : List α) (name : α → String) : Codec α where
  encode a := .word (name a)
  decode _
    | .word found => all.find? fun a => name a = found
    | _ => none

/-- A value behind a name, in brackets. -/
def variant (name : String) (codec : Codec α) : Codec α where
  encode a := .tuple .plain (some name) [codec.encode a]
  decode reading document :=
    match document.tuple? with
    | some (some found, [content]) =>
      if found = name then codec.decode (reading.within 2) content else none
    | _ => none

/-- Numbers side by side behind a name. An extension takes away their brackets; both the numbers and
the variant may then have a comma behind them. -/
def singlesVariant (name : String) (size : Nat) : Codec (List Single) where
  encode := (variant name (singles size)).encode
  decode reading document :=
    if reading.extensions.unwrapVariantNewtypes then
      match document with
      | .tuple _ (some found) items =>
        if found = name then (singles size).decode (reading.within 2) (.tuple .plain none items)
        else none
      | _ => none
    else (variant name (singles size)).decode reading document

/-- Three numbers behind a name, put together. -/
def triple? (name : String) (make : Single → Single → Single → α) (reading : Document.Reading)
    (document : Document) : Option α := do
  match ← (singlesVariant name 3).decode reading document with
  | [x, y, z] => return make x y z
  | _ => none

end Codec

namespace Document

/-- Fields of a record and the circumstances under which their values are understood. -/
structure Fields where
  reading : Reading
  entries : List (String × Document)

/-- The fields of a record. Those that are not known may hold anything that is not too deep. -/
def Fields.of? (reading : Reading) (known : List String) (entries : List (String × Document)) :
    Option Fields :=
  let reading := reading.within 2
  if entries.all fun (name, value) => known.contains name || reading.admits value then
    some ⟨reading, entries⟩
  else none

/-- The fields of a record that has the right name or may go without. -/
def fields? (document : Document) (reading : Reading) (name : String) (known : List String) :
    Option Fields :=
  let fields (found : Option String) (entries : List (String × Document)) :=
    if reading.accepts name found then Fields.of? reading known entries else none
  match document with
  | .record found entries => fields found entries
  | .tuple .plain found [] => fields found []
  | .unit => fields none []
  | _ => none

/-- The field of a name, if there is one; a repeated field is refused. -/
def field? (fields : Fields) (name : String) : Option (Option Document) :=
  match fields.entries.filter fun field => field.1 = name with
  | [] => some none
  | [field] => some (some field.2)
  | _ => none

/-- The value of a field that has to be there. -/
def required {α : Type} (codec : Codec α) (name : String) (fields : Fields) : Option α := do
  codec.decode fields.reading (← (← field? fields name))

/-- The value of a field that may be left out. -/
def optional {α : Type} (codec : Codec α) (name : String) (default : α) (fields : Fields) :
    Option α := do
  match ← field? fields name with
  | none => return default
  | some document => codec.decode fields.reading document

end Document

namespace Identity

/-- Value of hexadecimal digits. -/
def ofHex? (digits : List Char) : Option Identity :=
  if digits.length = 32 ∧ digits.all fun c => Numeral.digitValue c < 16 then
    some ⟨digits.foldl (fun n c => n * 16 + Numeral.digitValue c) 0⟩
  else none

/-- Digits in groups of 8, 4, 4, 4 and 12 with dashes between them. -/
def ofGroups? (text : List Char) : Option Identity :=
  let dash (position : Nat) : Bool := text[position]? = some '-'
  let group (start size : Nat) : List Char := (text.drop start).take size
  if text.length = 36 && dash 8 && dash 13 && dash 18 && dash 23 then
    ofHex? (group 0 8 ++ group 9 4 ++ group 14 4 ++ group 19 4 ++ group 24 12)
  else none

/-- Lead of an identity as a resource name. -/
def resourceStem : List Char := "urn:uuid:".toList

/-- Read an identity with or without dashes, in braces or as a resource name. Upper and lower case
are the same. -/
def ofText? (text : String) : Option Identity :=
  let chars := text.toList
  if chars.length = 32 then ofHex? chars
  else if chars.length = 36 then ofGroups? chars
  else if chars.length = 38 && chars.head? = some '\x7b' && chars.getLast? = some '\x7d' then
    ofGroups? ((chars.drop 1).take 36)
  else if chars.length = 45 && resourceStem.isPrefixOf (chars.map Char.toLower) then
    ofGroups? (chars.drop resourceStem.length)
  else none

/-- An identity of some kind, as a text in brackets, or without them where they are taken away. -/
def codec (kind : String) : Codec Identity where
  encode identity := .tuple .plain none [.text identity.text]
  decode reading document :=
    if reading.extensions.unwrapNewtypes || reading.bare then
      match document with
      | .text text => ofText? text
      | _ => none
    else
      match document.tuple? with
      | some (found, [.text text]) => if reading.accepts kind found then ofText? text else none
      | _ => none

end Identity

end NodeScript

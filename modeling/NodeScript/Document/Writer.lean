import NodeScript.Document.Basic
import NodeScript.Identity
import NodeScript.Text.Quoted

/-!
# Writing documents

Lists, maps and records have one entry on each line, indented by four blanks and followed by a
comma; tuples stand on one line.
-/

namespace NodeScript.Document

/-- A new line at a depth. -/
def newLine (depth : Nat) : List Char := '\n' :: List.replicate (4 * depth) ' '

/-- A bracketed block of lines; nothing stands between the brackets if there are none. -/
def block (depth : Nat) (left right : Char) (lines : List (List Char)) : List Char :=
  match lines with
  | [] => [left, right]
  | _ =>
    left :: lines.flatMap (fun line => newLine (depth + 1) ++ line ++ [',']) ++
      newLine depth ++ [right]

/-- Items on one line. -/
def inline : List (List Char) → List Char
  | [] => []
  | [item] => item
  | item :: rest => item ++ ',' :: ' ' :: inline rest

def nameChars : Option String → List Char
  | none => []
  | some name => name.toList

/-- A byte by its code, behind a backslash. -/
def byteEscapeOf (value : UInt8) : List Char := ['\\', 'x'] ++ Identity.hexDigits 2 value.toNat

mutual

/-- The text of a document at a depth. -/
def write (depth : Nat) : Document → List Char
  | .unit => ['(', ')']
  | .flag value => (if value then "true" else "false").toList
  | .absent => "None".toList
  | .present brackets document =>
    if brackets = .missing then "Some ".toList ++ write depth document
    else "Some(".toList ++ write depth document ++ [')']
  | .byte value => 'b' :: '\'' :: byteEscapeOf value ++ ['\'']
  | .bytes values => 'b' :: '"' :: values.flatMap byteEscapeOf ++ ['"']
  | .word name => name.toList
  | .number digits => digits
  | .text value => Text.quotedChars true value.toList
  | .character value => '\'' :: Text.escapeChar true value ++ ['\'']
  | .list items => block depth '[' ']' (writeItems (depth + 1) items)
  | .map entries => block depth '\x7b' '\x7d' (writeEntries (depth + 1) entries)
  | .tuple brackets name items =>
    nameChars name ++ '(' :: inline (writeItems depth items) ++
      (if brackets = .trailing then [',', ',', ')'] else [')'])
  | .record name fields => nameChars name ++ block depth '(' ')' (writeFields (depth + 1) fields)

def writeItems (depth : Nat) : List Document → List (List Char)
  | [] => []
  | item :: rest => write depth item :: writeItems depth rest

def writeEntries (depth : Nat) : List (Document × Document) → List (List Char)
  | [] => []
  | (key, value) :: rest =>
    (write depth key ++ ':' :: ' ' :: write depth value) :: writeEntries depth rest

def writeFields (depth : Nat) : List (String × Document) → List (List Char)
  | [] => []
  | (name, value) :: rest =>
    (name.toList ++ ':' :: ' ' :: write depth value) :: writeFields depth rest

end

/-- The text of a document. -/
def render (document : Document) : String := String.ofList (document.write 0)

end NodeScript.Document

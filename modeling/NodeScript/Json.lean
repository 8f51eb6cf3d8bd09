import NodeScript.Text.Quoted

/-!
# JSON text

Trees of JSON and their text with one entry on each line, indented by two blanks.
-/

namespace NodeScript

/-- A tree of values. -/
inductive Json where
  | null
  | bool (value : Bool)
  /-- A number as it is written. -/
  | number (digits : String)
  | text (value : String)
  | list (items : List Json)
  | object (fields : List (String × Json))

namespace Json

/-- One character inside quotes. -/
def escapeChar (c : Char) : List Char :=
  if c = '"' ∨ c = '\\' then ['\\', c]
  else if c = '\x08' then ['\\', 'b']
  else if c = '\x0c' then ['\\', 'f']
  else if c = '\n' then ['\\', 'n']
  else if c = '\r' then ['\\', 'r']
  else if c = '\t' then ['\\', 't']
  else if c.toNat < 0x20 then
    ['\\', 'u', '0', '0', Nat.digitChar (c.toNat / 16), Nat.digitChar (c.toNat % 16)]
  else [c]

/-- Text in quotes. -/
def quoted (text : String) : String :=
  String.ofList ('"' :: text.toList.flatMap escapeChar ++ ['"'])

/-- Two blanks a level. -/
def indent (depth : Nat) : String := String.ofList (List.replicate (2 * depth) ' ')

/-- A bracketed block of lines; nothing stands between the brackets if there are none. -/
def block (depth : Nat) (left right : String) (lines : List String) : String :=
  match lines with
  | [] => left ++ right
  | _ =>
    left ++ "\n" ++ Text.join ",\n" (lines.map fun line => indent (depth + 1) ++ line) ++ "\n" ++
      indent depth ++ right

mutual

/-- The text of a tree at a depth. -/
def write (depth : Nat) : Json → String
  | .null => "null"
  | .bool value => if value then "true" else "false"
  | .number digits => digits
  | .text value => quoted value
  | .list items => block depth "[" "]" (writeItems (depth + 1) items)
  | .object fields => block depth "\x7b" "\x7d" (writeFields (depth + 1) fields)

def writeItems (depth : Nat) : List Json → List String
  | [] => []
  | item :: rest => item.write depth :: writeItems depth rest

def writeFields (depth : Nat) : List (String × Json) → List String
  | [] => []
  | (name, value) :: rest =>
    (quoted name ++ ": " ++ value.write depth) :: writeFields depth rest

end

def render (tree : Json) : String := tree.write 0

end Json

end NodeScript

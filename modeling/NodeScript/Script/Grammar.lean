import NodeScript.Script.Program
import NodeScript.Script.Reader

/-!
# Reading scripts

`Program.parse` reads script text. Blanks and comments may stand between any two tokens, so
indentation carries no meaning. A rejected text is reported by its line and what stands there.

## Implementation notes

Values nest in lists and statements nest in zones. Both readers recurse on a nesting allowance;
every level takes at least one character, so the length of the text is allowance enough.
-/

namespace NodeScript.Script

/-- A text that is no script: the line of the offending place and the rest of that line. -/
structure ParseError where
  line : Nat
  near : String
deriving DecidableEq, Repr

def ParseError.message (error : ParseError) : String :=
  "Syntax error at line " ++ toString error.line ++ " near '" ++ error.near ++ "'"

/-! ## Tokens -/

def isSpace (c : Char) : Bool := c == ' ' || c == '\t' || c == '\r' || c == '\n'

def isLineEnd (c : Char) : Bool := c == '\r' || c == '\n'

/-- The text after a comment, from its line end on. A carriage return that no line feed follows
spoils the comment. -/
def afterComment (text : List Char) : Option (List Char) :=
  match text.dropWhile fun c => !isLineEnd c with
  | '\r' :: '\n' :: rest => some ('\r' :: '\n' :: rest)
  | '\r' :: _ => none
  | rest => some rest

theorem afterComment_length {text rest : List Char} (h : afterComment text = some rest) :
    rest.length ≤ text.length := by
  have hdrop : (text.dropWhile fun c => !isLineEnd c).length ≤ text.length :=
    (List.dropWhile_suffix _).length_le
  revert h
  unfold afterComment
  split <;> intro h
  · next heq => rw [heq] at hdrop; cases h; exact hdrop
  · cases h
  · cases h; exact hdrop

/-- The text without leading blanks and comments. -/
def skipBlank (text : List Char) : List Char :=
  match text with
  | [] => []
  | c :: rest =>
    if isSpace c then skipBlank rest
    else if c = '#' then
      match _hafter : afterComment rest with
      | some after => skipBlank after
      | none => c :: rest
    else c :: rest
termination_by text.length
decreasing_by
  · simp
  · have := afterComment_length _hafter
    simp only [List.length_cons]
    omega

/-- A reader after optional blanks and comments. -/
def token {α : Type} (reader : Reader α) : Reader α := fun input => reader (skipBlank input)

/-- Optional blanks and comments. -/
def blank : Reader Unit := fun input => .ok ((), skipBlank input)

/-- A character after optional blanks. -/
def symbol (c : Char) : Reader Unit := token (Reader.char c)

def isLetter (c : Char) : Bool := c.isAlpha || c == '_'

def isWordChar (c : Char) : Bool := c.isAlphanum || c == '_'

/-- Read a name. -/
def identifier : Reader String := token do
  let first ← Reader.runSome isLetter
  let rest ← Reader.run isWordChar
  return String.ofList (first ++ rest)

/-- Read the given name. -/
def keyword (word : String) : Reader Unit :=
  Reader.convert identifier fun found => if found = word then some () else none

def comma : Reader Unit := symbol ','

/-- Elements between two symbols, with an optional comma after the last one. -/
def enclosed {α : Type} (opening closing : Char) (reader : Reader α) : Reader (List α) := do
  symbol opening
  let items ← Reader.separated comma reader
  let _ ← Reader.optional comma
  symbol closing
  return items

/-! ## Values -/

/-- One character of a string. A backslash must start one of the four escapes. -/
def stringChar : Reader Char
  | [] => .error []
  | '"' :: rest => .error ('"' :: rest)
  | '\\' :: 'n' :: rest => .ok ('\n', rest)
  | '\\' :: 't' :: rest => .ok ('\t', rest)
  | '\\' :: '\\' :: rest => .ok ('\\', rest)
  | '\\' :: '"' :: rest => .ok ('"', rest)
  | '\\' :: rest => .error rest
  | c :: rest => .ok (c, rest)

def string : Reader String := do
  Reader.char '"'
  let text ← Reader.many stringChar
  Reader.char '"'
  return String.ofList text

/-- Mark, sign and digits of an exponent. -/
def exponentText : Reader (List Char) := do
  let mark ← Reader.orElse
    (do Reader.char 'e'; return 'e')
    (do Reader.char 'E'; return 'E')
  let sign ← Reader.optional (Reader.orElse
    (do Reader.char '+'; return '+')
    (do Reader.char '-'; return '-'))
  let digits ← Reader.runSome Char.isDigit
  return mark :: sign.toList ++ digits

/-- Sign, digits, fraction and exponent of a number, as they stand in the text. -/
def numberText : Reader (List Char) := do
  let sign ← Reader.optional (Reader.char '-')
  let whole ← Reader.runSome Char.isDigit
  let fraction ← Reader.optional do
    Reader.char '.'
    Reader.run Char.isDigit
  let exponent ← Reader.optional exponentText
  return (sign.map fun _ => '-').toList ++ whole ++
    (fraction.map ('.' :: ·)).getD [] ++ exponent.getD []

/-- An integer must fit 32 bits; a point or an exponent makes a float. -/
def numberLiteral (text : List Char) : Option Literal :=
  if text.any fun c => c == '.' || c == 'e' || c == 'E' then
    (Single.read? text).map .float
  else
    let (negative, digits) := match text with
      | '-' :: rest => (true, rest)
      | rest => (false, rest)
    let n : Int := Single.digitsValue digits
    let i := if negative then -n else n
    if -2147483648 ≤ i ∧ i ≤ 2147483647 then some (.int (Int32.ofInt i)) else none

def number : Reader Literal := Reader.convert numberText numberLiteral

/-- A component of a tuple; integers become floats. -/
def component : Reader Single :=
  Reader.convert (token number) fun
    | .float x => some x
    | .int i => some (Single.ofInt i.toInt)
    | _ => none

/-- Three components make a vector, four a color. -/
def tupleLiteral : Reader Literal :=
  Reader.convert
    (do
      Reader.char '('
      let items ← Reader.separatedSome comma component
      let _ ← Reader.optional comma
      symbol ')'
      return items)
    fun
    | [x, y, z] => some (.vector x y z)
    | [r, g, b, a] => some (.color r g b a)
    | _ => none

/-- `True`, `False`, a name or a dotted name; nothing may stand before the dot. -/
def nameValue : Reader Value := do
  let base ← identifier
  let output ← Reader.optional do
    Reader.char '.'
    identifier
  return match output with
    | some output => .select base output
    | none =>
      if base = "True" then .literal (.bool true)
      else if base = "False" then .literal (.bool false)
      else .name base

/-- A value whose lists nest less deeply than the allowance. -/
def value : Nat → Reader Value
  | 0 => fun input => .error input
  | depth + 1 => token (
      Reader.orElse (do return .literal (.text (← string))) <|
      Reader.orElse (do return .literal (← tupleLiteral)) <|
      Reader.orElse (do
        Reader.char '['
        let items ← Reader.separated comma (value depth)
        let _ ← Reader.optional comma
        symbol ']'
        return .list items) <|
      Reader.orElse (do return .literal (← number)) nameValue)

/-! ## Program structure -/

/-- Read a parameter. -/
def parameter (depth : Nat) : Reader Parameter := do
  let name ← identifier
  symbol ':'
  let typeName ← identifier
  let default ← Reader.optional do
    symbol '='
    value depth
  return ⟨name, typeName, default⟩

/-- Read a named argument. -/
def argument (depth : Nat) : Reader (String × Value) := do
  let name ← identifier
  symbol '='
  let v ← value depth
  return (name, v)

/-- Read arguments in brackets. -/
def arguments (depth : Nat) : Reader (List (String × Value)) :=
  enclosed '(' ')' (argument depth)

/-- Read a call. -/
def callStatement (depth : Nat) : Reader Statement := do
  let target ← identifier
  symbol '='
  let function ← identifier
  let args ← arguments depth
  return .call target function args

/-- Read what opens a zone. -/
def zoneKind : Reader ZoneKind := do
  symbol '@'
  Reader.orElse
    (do keyword ZoneKind.repetition.decorator; return .repetition)
    (do keyword ZoneKind.simulation.decorator; return .simulation)

/-- The items of a zone: a simulation's leading elapsed time is no item. -/
def stepItems (kind : ZoneKind) (params : List Parameter) : List Parameter :=
  match kind, params with
  | .simulation, first :: rest => if first.name = deltaTime then rest else params
  | _, _ => params

/-- A statement whose zones nest less deeply than the allowance. -/
def statement : Nat → Reader Statement
  | 0 => fun input => .error input
  | depth + 1 => Reader.orElse (callStatement (depth + 1)) do
      let kind ← zoneKind
      keyword "def"
      let step ← identifier
      let params ← enclosed '(' ')' (parameter (depth + 1))
      symbol ':'
      let body ← Reader.many (statement depth)
      keyword "return"
      let next ← enclosed '(' ')' (value (depth + 1))
      let target ← identifier
      symbol '='
      keyword step
      let args ← arguments (depth + 1)
      return .zone target kind (stepItems kind params) args body next

/-- Read a returned value. -/
def returnEntry (depth : Nat) : Reader (String × Value) := do
  let key ← token string
  symbol ':'
  let v ← value depth
  return (key, v)

/-- Read a program. -/
def program (depth : Nat) : Reader Program := do
  keyword "from"
  keyword "geometry_script"
  keyword "import"
  symbol '*'
  symbol '@'
  keyword "tree"
  symbol '('
  let name ← token string
  symbol ')'
  blank
  keyword "def"
  let _ ← identifier
  let params ← enclosed '(' ')' (parameter depth)
  symbol ':'
  let statements ← Reader.many (statement depth)
  keyword "return"
  let returns ← enclosed '\x7b' '\x7d' (returnEntry depth)
  return ⟨name, params, statements, returns⟩

/-- The error for a failure at `rest`, a final part of `text`. -/
def errorAt (text rest : List Char) : ParseError :=
  let rest := Text.trimStart rest
  let consumed := text.take (text.length - rest.length)
  { line := consumed.count '\n' + 1
    near := String.ofList (Text.trim (rest.takeWhile (· != '\n'))) }

/-- Read a whole text as a program. -/
def Program.parse (text : String) : Except ParseError Program :=
  let input := text.toList
  match program (input.length + 1) input with
  | .error place => .error (errorAt input place)
  | .ok (result, rest) =>
    match skipBlank rest with
    | [] => .ok result
    | rest => .error (errorAt input rest)

end NodeScript.Script

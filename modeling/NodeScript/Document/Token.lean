import NodeScript.Document.Basic
import NodeScript.Document.Numeral
import NodeScript.Text.Casing
import NodeScript.Text.WordTable

/-!
# Tokens of documents

Blanks and comments, words, numbers, and what stands in quotes.
-/

namespace NodeScript.Document

/-- Take a value off the front of a text. -/
abbrev Scan (α : Type) := List Char → Option (α × List Char)

/-- Whether a character is space between tokens. -/
def isBlank (c : Char) : Bool :=
  let n := c.toNat
  (0x9 ≤ n && n ≤ 0xd) || n = 0x20 || n = 0x85 || n = 0x200e || n = 0x200f || n = 0x2028 ||
    n = 0x2029

/-- The text behind a comment that is open `depth` times. -/
def behindComment : Nat → List Char → Option (List Char)
  | _, [] => none
  | depth, '/' :: '*' :: rest => behindComment (depth + 1) rest
  | depth, '*' :: '/' :: rest =>
    if depth ≤ 1 then some rest else behindComment (depth - 1) rest
  | depth, _ :: rest => behindComment depth rest

theorem length_behindComment {depth : Nat} {text rest : List Char}
    (h : behindComment depth text = some rest) : rest.length ≤ text.length := by
  fun_induction behindComment depth text with
  | case1 => cases h
  | case2 depth rest' ih =>
    have := ih h
    simp only [List.length_cons]
    omega
  | case3 depth rest' hd =>
    cases h
    simp only [List.length_cons]
    omega
  | case4 depth rest' hd ih =>
    have := ih h
    simp only [List.length_cons]
    omega
  | case5 depth c rest' _ _ ih =>
    have := ih h
    simp only [List.length_cons]
    omega

/-- Leave out blanks and comments. -/
def skip (text : List Char) : Option (List Char) :=
  match text with
  | [] => some []
  | '/' :: '/' :: rest => skip (rest.dropWhile (· ≠ '\n'))
  | '/' :: '*' :: rest =>
    match _h : behindComment 1 rest with
    | some behind => skip behind
    | none => none
  | '/' :: _ => none
  | c :: rest => if isBlank c then skip rest else some (c :: rest)
termination_by text.length
decreasing_by
  · have := (List.dropWhile_sublist (fun c => decide (c ≠ '\n')) (l := rest)).length_le
    simp only [List.length_cons]
    omega
  · have := length_behindComment _h
    simp only [List.length_cons]
    omega
  · simp

/-- Whether a character may begin a word. -/
def isWordStart (c : Char) : Bool :=
  if c.toNat < 0x80 then c.isAlpha || c = '_' else Text.inRuns Text.wordStartRuns c.toNat

/-- Whether a character may follow in a word. -/
def isWordPart (c : Char) : Bool :=
  if c.toNat < 0x80 then c.isAlphanum || c = '_'
  else isWordStart c || Text.isAttached c != Text.inRuns Text.wordPartRuns c.toNat

/-- Whether a raw name may contain a character. -/
def isRawPart (c : Char) : Bool := isWordPart c || c = '.' || c = '+' || c = '-'

/-- A word behind `r#`, which may hold points and signs. -/
def rawWord : Scan String := fun text =>
  match text.takeWhile isRawPart with
  | [] => none
  | name => some (String.ofList name, text.dropWhile isRawPart)

/-- An identifier. -/
def readWord : Scan String
  | 'r' :: '#' :: rest => rawWord rest
  | c :: rest =>
    if isWordStart c then
      some (String.ofList (c :: rest.takeWhile isWordPart), rest.dropWhile isWordPart)
    else none
  | [] => none

/-- Whether a number may contain a character. -/
def isNumberPart (c : Char) : Bool := c.isAlphanum || c = '_' || c = '.' || c = '+' || c = '-'

/-- Read a number. -/
def readNumber : Scan Document := fun text =>
  let digits := text.takeWhile isNumberPart
  if Numeral.isNumeral digits then some (.number digits, text.dropWhile isNumberPart) else none

/-- Value of hexadecimal digits. -/
def hexValue (digits : List Char) : Nat :=
  digits.foldl (fun n c => n * 16 + Numeral.digitValue c) 0

/-- Whether a character is a digit to base 16. -/
def isHexDigit (c : Char) : Bool := Numeral.digitValue c < 16

/-- Hexadecimal digits in braces, at most six. -/
def codePoint : Scan Char
  | '\x7b' :: rest =>
    let digits := rest.takeWhile isHexDigit
    match rest.dropWhile isHexDigit with
    | '\x7d' :: rest =>
      let code := hexValue digits
      if 1 ≤ digits.length ∧ digits.length ≤ 6 ∧ code.isValidChar then
        some (Char.ofNat code, rest)
      else none
    | _ => none
  | _ => none

/-- A byte as two hexadecimal digits. -/
def hexByte : Scan Nat
  | a :: b :: rest =>
    if isHexDigit a ∧ isHexDigit b then some (hexValue [a, b], rest) else none
  | _ => none

/-- Bytes that are escaped one by one. -/
def hexBytes : Nat → Scan (List Nat)
  | 0, rest => some ([], rest)
  | n + 1, '\\' :: 'x' :: rest => do
    let (code, rest) ← hexByte rest
    let (codes, rest) ← hexBytes n rest
    return (code :: codes, rest)
  | _ + 1, _ => none

/-- How many bytes follow the first byte of a character in its encoding. -/
def bytesBehind (first : Nat) : Nat :=
  if first < 0x80 then 0 else if first < 0xe0 then 1 else if first < 0xf0 then 2 else 3

section

-- The power of numbers here is that of the core library, also beside a general one of monoids.
attribute [local instance (2000)] instPowNat

/-- The character that bytes encode, if they are all of its encoding and no longer than need be. -/
def charOfBytes? (first : Nat) (others : List Nat) : Option Char :=
  let lead := first % 2 ^ (if others.isEmpty then 7 else 6 - others.length : Nat)
  let code := others.foldl (fun n other => n * 64 + other % 64) lead
  if code.isValidChar ∧ others.all (fun other => other / 64 = 2) ∧
      (Char.ofNat code).utf8Size = others.length + 1 ∧ (first < 0x80 ∨ 0xc0 ≤ first) ∧
      first < 0xf8 then
    some (Char.ofNat code)
  else none

end

/-- Escapes of a single letter. -/
def letterEscape? : Char → Option Char
  | '\'' => some '\''
  | '"' => some '"'
  | '\\' => some '\\'
  | 'n' => some '\n'
  | 'r' => some '\r'
  | 't' => some '\t'
  | '0' => some '\x00'
  | _ => none

/-- What stands behind a backslash in a text. All bytes of a character may be escaped one by one. -/
def textEscape : Scan Char
  | 'x' :: rest => do
    let (first, rest) ← hexByte rest
    let (others, rest) ← hexBytes (bytesBehind first) rest
    return (← charOfBytes? first others, rest)
  | 'u' :: rest => codePoint rest
  | c :: rest => (letterEscape? c).map (·, rest)
  | [] => none

/-- What stands behind a backslash in a single character. -/
def characterEscape : Scan Char
  | 'x' :: rest => do
    let (code, rest) ← hexByte rest
    if code < 0x80 then some (Char.ofNat code, rest) else none
  | rest => textEscape rest

/-- Bytes of a character. -/
def utf8Bytes (c : Char) : List UInt8 := (String.singleton c).toUTF8.toList

/-- What stands behind a backslash in a string of bytes. -/
def byteEscape : Scan (List UInt8)
  | 'x' :: rest => (hexByte rest).map fun (code, rest) => ([UInt8.ofNat code], rest)
  | rest => (textEscape rest).map fun (c, rest) => (utf8Bytes c, rest)

/-- What stands in double quotes, up to the closing one. -/
def quotedRest {α : Type} (plain : Char → α) (escape : Scan α) (text : List Char) :
    Option (List α × List Char) :=
  match text with
  | [] => none
  | '"' :: rest => some ([], rest)
  | '\\' :: rest =>
    match escape rest with
    | none => none
    | some (a, behind) =>
      if behind.length ≤ rest.length then
        (quotedRest plain escape behind).map fun (as, last) => (a :: as, last)
      else none
  | c :: rest => (quotedRest plain escape rest).map fun (as, last) => (plain c :: as, last)
termination_by text.length

/-- Read quoted text. -/
def quotedText : Scan Document := fun text =>
  (quotedRest id textEscape text).map fun (cs, last) => (.text (String.ofList cs), last)

/-- Read quoted bytes. -/
def quotedBytes : Scan Document := fun text =>
  (quotedRest utf8Bytes byteEscape text).map fun (parts, last) => (.bytes parts.flatten, last)

/-- Characters up to a quote that is followed by a number of hash signs. -/
def rawRest (hashes : Nat) : Scan (List Char)
  | [] => none
  | c :: rest =>
    if c = '"' && (List.replicate hashes '#').isPrefixOf rest then
      some ([], rest.drop hashes)
    else (rawRest hashes rest).map fun (cs, last) => (c :: cs, last)

/-- Characters in quotes with any number of hash signs around them. -/
def rawQuoted : Scan (List Char) := fun text =>
  let hashes := (text.takeWhile (· = '#')).length
  match text.drop hashes with
  | '"' :: rest => rawRest hashes rest
  | _ => none

/-- Read text without escapes. -/
def rawText : Scan Document := fun text =>
  (rawQuoted text).map fun (cs, last) => (.text (String.ofList cs), last)

/-- Read bytes without escapes. -/
def rawBytes : Scan Document := fun text =>
  (rawQuoted text).map fun (cs, last) => (.bytes (cs.flatMap utf8Bytes), last)

/-- The closing quote behind a value. -/
def closingQuote (document : Document) : Scan Document
  | '\'' :: rest => some (document, rest)
  | _ => none

/-- A character in single quotes. -/
def characterRest : Scan Document
  | '\\' :: rest => do
    let (c, rest) ← characterEscape rest
    closingQuote (.character c) rest
  | c :: rest => closingQuote (.character c) rest
  | [] => none

/-- A byte in single quotes. -/
def byteRest : Scan Document
  | '\\' :: 'u' :: _ => none
  | '\\' :: rest => do
    match ← byteEscape rest with
    | ([code], rest) => closingQuote (.byte code) rest
    | _ => none
  | c :: rest => if c.toNat < 0x80 then closingQuote (.byte (UInt8.ofNat c.toNat)) rest else none
  | [] => none

end NodeScript.Document

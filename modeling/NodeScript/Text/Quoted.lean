import NodeScript.Text.Casing

/-!
# Quoted text

Texts in messages and documents stand in double quotes. Control characters have short escapes, and
what has no visible form of its own is written by its code.
-/

namespace NodeScript.Text

/-- Whether a character has a visible form. -/
def isPrintable (c : Char) : Bool := !inRuns unprintableRuns c.toNat

/-- Escape by code, `\u` and the code in braces. -/
def codeEscape (c : Char) : List Char :=
  ['\\', 'u', '\x7b'] ++ Nat.toDigits 16 c.toNat ++ ['\x7d']

/-- One character inside quotes. Single quotes are escaped when `single` holds. -/
def escapeChar (single : Bool) (c : Char) : List Char :=
  if c = '\x00' then ['\\', '0']
  else if c = '\t' then ['\\', 't']
  else if c = '\r' then ['\\', 'r']
  else if c = '\n' then ['\\', 'n']
  else if c = '\\' ∨ c = '"' ∨ (single ∧ c = '\'') then ['\\', c]
  else if 0x20 ≤ c.toNat ∧ c.toNat < 0x7f then [c]
  else if isAttached c ∨ !isPrintable c then codeEscape c
  else [c]

def quotedChars (single : Bool) (text : List Char) : List Char :=
  '"' :: text.flatMap (escapeChar single) ++ ['"']

/-- Text as it is shown in messages. -/
def quoted (text : String) : String := String.ofList (quotedChars false text.toList)

/-- Texts one after another with a separator between neighbours. -/
def join (separator : String) : List String → String
  | [] => ""
  | [text] => text
  | text :: others => text ++ separator ++ join separator others

/-- White space of the Unicode standard. -/
def isBlank (c : Char) : Bool :=
  let n := c.toNat
  (0x9 ≤ n && n ≤ 0xd) || n == 0x20 || n == 0x85 || n == 0xa0 || n == 0x1680 ||
    (0x2000 ≤ n && n ≤ 0x200a) || n == 0x2028 || n == 0x2029 || n == 0x202f || n == 0x205f ||
    n == 0x3000

def trimStart (text : List Char) : List Char := text.dropWhile isBlank

def trim (text : List Char) : List Char :=
  ((trimStart text).reverse.dropWhile isBlank).reverse

end NodeScript.Text

import NodeScript.Number.Decimal

/-!
# Numerals of documents

Integers have a sign, a base and underscores between their digits; numbers with a fraction are read
into binary32. Either may end in a mark that fixes its width.
-/

namespace NodeScript.Numeral

/-- Value of a digit up to base 16. -/
def digitValue (c : Char) : Nat :=
  if '0' ≤ c ∧ c ≤ '9' then c.toNat - '0'.toNat
  else if 'a' ≤ c ∧ c ≤ 'f' then c.toNat - 'a'.toNat + 10
  else if 'A' ≤ c ∧ c ≤ 'F' then c.toNat - 'A'.toNat + 10
  else 16

/-- Split a sign off a number. -/
def splitSign : List Char → Bool × List Char
  | '-' :: rest => (true, rest)
  | '+' :: rest => (false, rest)
  | rest => (false, rest)

/-- Split the mark of a base off a number. -/
def splitBase : List Char → Nat × List Char
  | '0' :: 'x' :: rest => (16, rest)
  | '0' :: 'o' :: rest => (8, rest)
  | '0' :: 'b' :: rest => (2, rest)
  | rest => (10, rest)

/-- Value of digits in a base. Underscores may stand between and behind digits. -/
def digitsIn? (base : Nat) (digits : List Char) : Option Nat :=
  match digits with
  | [] => none
  | '_' :: _ => none
  | _ =>
    if digits.all fun c => c = '_' || digitValue c < base then
      some ((digits.filter (· ≠ '_')).foldl (fun n c => n * base + digitValue c) 0)
    else none

/-- Value of an integer without a mark. -/
def plainInteger? (digits : List Char) : Option Int :=
  let (negative, rest) := splitSign digits
  let (base, rest) := splitBase rest
  (digitsIn? base rest).map fun n => if negative then -(n : Int) else n

/-- A range of integers and the mark that stands for it. -/
structure Width where
  mark : String
  low : Int
  high : Int
deriving DecidableEq, Repr

namespace Width

-- The power of numbers here is that of the core library, also beside a general one of monoids.
attribute [local instance (2000)] instPowNat

/-- Numbers from zero on. -/
def unsigned (bits : Nat) : Width := ⟨"u" ++ toString bits, 0, 2 ^ bits - 1⟩

/-- Numbers of both signs. -/
def signed (bits : Nat) : Width := ⟨"i" ++ toString bits, -2 ^ (bits - 1), 2 ^ (bits - 1) - 1⟩

/-- Whether a value is in range. -/
def holds (width : Width) (value : Int) : Bool := width.low ≤ value && value ≤ width.high

/-- Widths that have a mark. -/
def all : List Width := [8, 16, 32, 64].flatMap fun bits => [unsigned bits, signed bits]

end Width

/-- Split off the mark behind hexadecimal digits and underscores. -/
def splitWidth (digits : List Char) : List Char × Option Width :=
  let (_, unsigned) := splitSign digits
  let mark := unsigned.dropWhile fun c => c = '_' || digitValue c < 16
  match Width.all.find? fun width => width.mark.toList = mark with
  | some width => (digits.take (digits.length - mark.length), some width)
  | none => (digits, none)

/-- Value of an integer of a width; if it has a mark, it is the one of that width. -/
def integer? (width : Width) (digits : List Char) : Option Int :=
  let (digits, marked) := splitWidth digits
  if marked.all (· = width) then (plainInteger? digits).filter width.holds else none

/-- Whether digits are an integer of the width they are marked with, or of the widest one. -/
def isInteger (digits : List Char) : Bool :=
  let (digits, marked) := splitWidth digits
  match plainInteger? digits, marked with
  | some value, some width => width.holds value
  | some value, none => (Width.signed 64).holds value || (Width.unsigned 64).holds value
  | none, _ => false

/-- Leave out underscores; one may not stand in front or behind the point. -/
def withoutUnderscores : Bool → List Char → Option (List Char)
  | _, [] => some []
  | allowed, '_' :: rest => if allowed then withoutUnderscores allowed rest else none
  | allowed, c :: rest =>
    let allowed := if c.isDigit || c = 'e' || c = 'E' then true
      else if c = '.' then false else allowed
    (withoutUnderscores allowed rest).map (c :: ·)

/-- Numbers that are written as words, with or without a sign. -/
def special? : List Char → Option Single
  | ['i', 'n', 'f'] | ['+', 'i', 'n', 'f'] => some (.infinite false)
  | ['-', 'i', 'n', 'f'] => some (.infinite true)
  | ['N', 'a', 'N'] | ['+', 'N', 'a', 'N'] => some (.nan false)
  | ['-', 'N', 'a', 'N'] => some (.nan true)
  | _ => none

/-- Value of a number without a mark. -/
def plainSingle? (digits : List Char) : Option Single :=
  match special? digits with
  | some value => some value
  | none => (withoutUnderscores false digits).bind Single.read?

/-- Whether the last characters are the given mark. -/
def endsIn (mark digits : List Char) : Bool := mark.reverse.isPrefixOf digits.reverse

/-- The mark of binary32. -/
def singleMark : List Char := ['f', '3', '2']

/-- The mark of binary64. -/
def doubleMark : List Char := ['f', '6', '4']

/-- Digits without the mark at their end. -/
def withoutMark (mark digits : List Char) : List Char :=
  if endsIn mark digits then digits.take (digits.length - mark.length) else digits

/-- Value of a number; if it has a mark, it is the one of binary32. -/
def single? (digits : List Char) : Option Single := plainSingle? (withoutMark singleMark digits)

/-- Whether digits are a number of any kind. -/
def isNumeral (digits : List Char) : Bool :=
  isInteger digits || (single? digits).isSome ||
    (plainSingle? (withoutMark doubleMark digits)).isSome

end NodeScript.Numeral

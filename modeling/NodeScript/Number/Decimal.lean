import NodeScript.Number.Single

/-!
# Decimal text of binary32 numbers

`Single.shortest` finds the fewest digits that read back to a number, and of these the nearest. A
`NumberStyle` says which of two equally near ones is taken and how digits become text; each text
format of the library has one. `Single.read?` reads the text of a number.
-/

namespace NodeScript

/-- A positive decimal `coefficient * 10 ^ exponent`. -/
structure Decimal where
  coefficient : Nat
  exponent : Int
deriving DecidableEq, Repr

/-- Which of two equally near decimals is taken. -/
inductive TieRule where
  /-- The greater one. -/
  | up
  /-- The one whose last digit is even. -/
  | even
deriving DecidableEq, Repr

/-- Whether a coefficient goes up to the next one if the rest beyond it is `rest` out of `unit`. -/
def TieRule.goesUp (rule : TieRule) (coefficient rest unit : Nat) : Bool :=
  if 2 * rest = unit then
    match rule with
    | .up => true
    | .even => coefficient % 2 = 1
  else unit < 2 * rest

namespace Single

-- The power of numbers here is that of the core library, also beside a general one of monoids.
attribute [local instance (2000)] instPowNat

/-- The halves of a step between which every real rounds to the code, and whether the ends do. -/
def interval (code : Nat) : Nat × Nat × Bool :=
  (steps (code - 1) + steps code, steps code + steps (code + 1), code % 2 == 0)

/-- Try the two multiples of `10 ^ exponent` around the code's value. The nearer one that reads back
wins, and the rule decides between equally near ones. -/
def onGrid (tie : TieRule) (code : Nat) (exponent : Int) : Option Decimal :=
  let (low, high, closed) := interval code
  let up := match exponent with
    | .ofNat e => 10 ^ e
    | .negSucc _ => 1
  let down := match exponent with
    | .ofNat _ => 1
    | .negSucc e => 10 ^ (e + 1)
  let unit := up * 2 ^ (150 : Nat)
  let value := 2 * steps code * down
  let below := value / unit
  let inside (k : Nat) : Bool :=
    if closed then low * down ≤ k * unit ∧ k * unit ≤ high * down
    else low * down < k * unit ∧ k * unit < high * down
  let rest := value % unit
  if inside below then
    if inside (below + 1) ∧ tie.goesUp below rest unit then some ⟨below + 1, exponent⟩
    else some ⟨below, exponent⟩
  else if inside (below + 1) then some ⟨below + 1, exponent⟩
  else none

/-- Refine the grid from `exponent` downwards until a multiple reads back. -/
def refine (tie : TieRule) (code : Nat) : Nat → Int → Decimal
  | 0, exponent => ⟨0, exponent⟩
  | fuel + 1, exponent =>
    match onGrid tie code exponent with
    | some d => d
    | none => refine tie code fuel (exponent - 1)

/-- The shortest decimal that reads back to a nonzero code. The first grid tried is coarser than the
value, and the last one is finer than the distance to the neighbouring numbers. -/
def shortest (tie : TieRule) (code : Nat) : Decimal :=
  refine tie code 140 ((((steps code).log2 + 2) * 30103 / 100000 : Nat) - 44)

end Single

/-- How the digits of a number become text. -/
structure NumberStyle where
  /-- Decimal exponents of the first digit that are written positionally; `none` for all. -/
  plain : Option (Int × Int)
  /-- Whether a whole number in positional form ends in `.0`. -/
  wholeMark : Bool
  /-- Sign of a positive exponent. -/
  exponentSign : String
  /-- Text of a negative NaN. -/
  negativeNan : String
  /-- Which of two equally near digit strings is written. -/
  tie : TieRule

namespace NumberStyle

/-- Positional up to sixteen digits and down to four places, as in script text. -/
def script : NumberStyle := ⟨some (-4, 15), true, "", "NaN", .up⟩

/-- Always positional, with a mark on whole numbers. -/
def document : NumberStyle := ⟨none, true, "", "-NaN", .up⟩

/-- Always positional, whole numbers bare. -/
def message : NumberStyle := ⟨none, false, "", "NaN", .up⟩

/-- Positional up to thirteen digits and down to six places, a signed exponent, and even digits. -/
def json : NumberStyle := ⟨some (-6, 12), true, "+", "NaN", .even⟩

def zeros (n : Nat) : List Char := List.replicate n '0'

/-- Positional form of `0.digits * 10 ^ point`. -/
def positional (style : NumberStyle) (digits : List Char) (point : Int) : List Char :=
  if point ≤ 0 then
    '0' :: '.' :: zeros point.natAbs ++ digits
  else
    let n := point.toNat
    if n < digits.length then
      digits.take n ++ '.' :: digits.drop n
    else
      digits ++ zeros (n - digits.length) ++ (if style.wholeMark then ['.', '0'] else [])

/-- One digit before the point, then the exponent. -/
def scientific (style : NumberStyle) (digits : List Char) (exponent : Int) : List Char :=
  let fraction := digits.drop 1
  digits.take 1 ++ (if fraction.isEmpty then [] else '.' :: fraction) ++ 'e' ::
    (if exponent < 0 then ['-'] else style.exponentSign.toList) ++ Nat.toDigits 10 exponent.natAbs

/-- Text of a finite magnitude. -/
def magnitude (style : NumberStyle) (code : Nat) : List Char :=
  if code = 0 then '0' :: (if style.wholeMark then ['.', '0'] else [])
  else
    let d := Single.shortest style.tie code
    let digits := Nat.toDigits 10 d.coefficient
    let point := d.exponent + digits.length
    match style.plain with
    | none => style.positional digits point
    | some (low, high) =>
      if low ≤ point - 1 ∧ point - 1 ≤ high then style.positional digits point
      else style.scientific digits (point - 1)

/-- The number as it is written. -/
def text (style : NumberStyle) : Single → String
  | .finite negative code =>
    String.ofList ((if negative then ['-'] else []) ++ style.magnitude code)
  | .infinite negative => if negative then "-inf" else "inf"
  | .nan negative => if negative then style.negativeNan else "NaN"

end NumberStyle

namespace Single

/-- Value of a list of decimal digits. -/
def digitsValue (digits : List Char) : Nat :=
  digits.foldl (fun n c => n * 10 + (c.toNat - '0'.toNat)) 0

/-- Exponent part `e5`, `E-7`, `e+3`, or nothing. -/
def readExponent? : List Char → Option Int
  | [] => some 0
  | mark :: rest =>
    if mark = 'e' ∨ mark = 'E' then
      let (negative, digits) := match rest with
        | '-' :: ds => (true, ds)
        | '+' :: ds => (false, ds)
        | ds => (false, ds)
      if digits.isEmpty ∨ !digits.all Char.isDigit then none
      else
        let n : Int := digitsValue digits
        some (if negative then -n else n)
    else none

/-- Read a magnitude; the sign has been read before. -/
def readUnsigned? (negative : Bool) (text : List Char) : Option Single :=
  let whole := text.takeWhile Char.isDigit
  let text := text.dropWhile Char.isDigit
  let (fraction, text) := match text with
    | '.' :: rest => (rest.takeWhile Char.isDigit, rest.dropWhile Char.isDigit)
    | rest => ([], rest)
  if whole.isEmpty ∧ fraction.isEmpty then none
  else (readExponent? text).map fun e =>
    ofDecimal negative (digitsValue (whole ++ fraction)) (e - fraction.length)

/-- Read `12`, `-0.5`, `.5`, `5.`, `1.5e-7`; the whole text must be the number. -/
def read? : List Char → Option Single
  | '-' :: rest => readUnsigned? true rest
  | '+' :: rest => readUnsigned? false rest
  | text => readUnsigned? false text

end Single

end NodeScript

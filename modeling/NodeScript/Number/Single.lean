/-!
# Binary32 numbers

A finite magnitude is a number of steps of `2 ^ -149`, the least positive binary32 number, and its
code is its position in the increasing list of finite magnitudes. Reading, conversion and
arithmetic all end in one rounding of an exact quotient.

## Implementation notes

The code of a magnitude is also its 31-bit encoding, so the successor of a number is the next code
and the rounded significand carries into the exponent by plain addition.
-/

namespace NodeScript

/-- A binary32 number; the payload of a NaN is not kept. -/
inductive Single where
  | finite (negative : Bool) (code : Fin 0x7f800000)
  | infinite (negative : Bool)
  | nan (negative : Bool)
deriving DecidableEq, Repr

namespace Single

-- The power of numbers here is that of the core library, also beside a general one of monoids.
attribute [local instance (2000)] instPowNat

instance : Inhabited Single := ⟨.finite false 0⟩

/-- The steps of `2 ^ -149` in the finite magnitude with this code. -/
def steps (code : Nat) : Nat :=
  let shift := code / 2 ^ (23 : Nat) - 1
  (code - shift * 2 ^ (23 : Nat)) * 2 ^ shift

/-- Codes beyond the greatest finite magnitude overflow to infinity. -/
def ofCode (negative : Bool) (code : Nat) : Single :=
  if h : code < 0x7f800000 then .finite negative ⟨code, h⟩ else .infinite negative

/-- The number whose storage bits are given. -/
def ofBits (bits : UInt32) : Single :=
  let negative := decide (2 ^ (31 : Nat) ≤ bits.toNat)
  let code := bits.toNat % 2 ^ (31 : Nat)
  if 0x7f800000 < code then .nan negative else ofCode negative code

/-- The integer nearest to a quotient; a half goes to the even neighbour. -/
def roundQuotient (num den : Nat) : Nat :=
  let q := num / den
  let r := num % den
  if 2 * r < den ∨ (2 * r = den ∧ q % 2 = 0) then q else q + 1

/-- The number nearest to `num / den`, with ties to the even code. -/
def ofQuotient (negative : Bool) (num den : Nat) : Single :=
  let scaled := num * 2 ^ (149 : Nat)
  let shift := (scaled / den).log2 - 23
  ofCode negative (roundQuotient scaled (den * 2 ^ shift) + shift * 2 ^ (23 : Nat))

/-- The number nearest to `coefficient * 10 ^ exponent`. Magnitudes far outside the range are
settled without forming the power of ten. -/
def ofDecimal (negative : Bool) (coefficient : Nat) (exponent : Int) : Single :=
  if coefficient = 0 then .finite negative 0
  else if 60 < exponent then .infinite negative
  else if exponent + (coefficient.log2 / 3 + 1 : Nat) < -60 then .finite negative 0
  else
    match exponent with
    | .ofNat e => ofQuotient negative (coefficient * 10 ^ e) 1
    | .negSucc e => ofQuotient negative coefficient (10 ^ (e + 1))

/-- The nearest to a natural number. -/
def ofNat (n : Nat) : Single := ofQuotient false n 1

/-- The nearest to an integer. -/
def ofInt (i : Int) : Single := ofQuotient (decide (i < 0)) i.natAbs 1

def zero : Single := .finite false 0

/-- Whether a number is neither infinite nor a NaN. -/
def isFinite : Single → Bool
  | .finite .. => true
  | _ => false

/-- Position on the number line, the two zeros together; a NaN has none. -/
def rank? : Single → Option Int
  | .finite negative code => some (if negative then -(code.val : Int) else code.val)
  | .infinite negative => some (if negative then -0x7f800000 else 0x7f800000)
  | .nan _ => none

/-- Numeric equality: zeros are equal and a NaN differs from everything. -/
def same (a b : Single) : Bool :=
  match a.rank?, b.rank? with
  | some x, some y => x == y
  | _, _ => false

/-- Numeric order; a NaN is not in it. -/
def less (a b : Single) : Bool :=
  match a.rank?, b.rank? with
  | some x, some y => decide (x < y)
  | _, _ => false

/-- The number with the other sign. -/
def neg : Single → Single
  | .finite negative code => .finite (!negative) code
  | .infinite negative => .infinite (!negative)
  | .nan negative => .nan (!negative)

/-- Sum, rounded once. An invalid sum is the negative NaN; a NaN operand is passed on. -/
def add : Single → Single → Single
  | .nan s, _ => .nan s
  | _, .nan t => .nan t
  | .infinite s, .infinite t => if s = t then .infinite s else .nan true
  | .infinite s, .finite .. => .infinite s
  | .finite .., .infinite t => .infinite t
  | .finite s a, .finite t b =>
    let x := steps a
    let y := steps b
    if s = t then ofQuotient s (x + y) (2 ^ (149 : Nat))
    else if x = y then zero
    else if y < x then ofQuotient s (x - y) (2 ^ (149 : Nat))
    else ofQuotient t (y - x) (2 ^ (149 : Nat))

/-- Difference; a NaN keeps its sign. -/
def sub (a b : Single) : Single :=
  match b with
  | .nan _ => a.add b
  | _ => a.add b.neg

/-- Product, rounded once. Zero times infinity is the negative NaN; a NaN operand is passed on. -/
def mul : Single → Single → Single
  | .nan s, _ => .nan s
  | _, .nan t => .nan t
  | .infinite s, .infinite t => .infinite (s != t)
  | .infinite s, .finite t b => if b = 0 then .nan true else .infinite (s != t)
  | .finite s a, .infinite t => if a = 0 then .nan true else .infinite (s != t)
  | .finite s a, .finite t b => ofQuotient (s != t) (steps a * steps b) (2 ^ (298 : Nat))

/-- The greater of two numbers; a NaN gives way to the other one. -/
def max (a b : Single) : Single :=
  match a, b with
  | .nan _, b => b
  | a, .nan _ => a
  | a, b => if a.less b then b else a

instance : Add Single := ⟨add⟩
instance : Sub Single := ⟨sub⟩
instance : Mul Single := ⟨mul⟩
instance (n : Nat) : OfNat Single n := ⟨ofNat n⟩
instance : OfScientific Single :=
  ⟨fun m s e => ofDecimal false m (if s then -(e : Int) else e)⟩

end Single

end NodeScript

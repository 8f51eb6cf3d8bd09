import NodeScript.Proofs.Number.Shortest

/-!
# Numbers read back

The text of a finite number, in every style that marks whole numbers and leaves positive exponents
without a sign, is a numeral that reads back to the same number.
-/

namespace NodeScript

open List

/-- The parts of a written number. -/
structure Numeral where
  negative : Bool
  whole : List Char
  fraction : Option (List Char)
  /-- Sign and digits of the exponent. -/
  exponent : Option (Bool × List Char)

namespace Numeral

/-- A minus sign where there is one. -/
def sign (negative : Bool) : List Char := if negative then ['-'] else []

def fractionText : Option (List Char) → List Char
  | none => []
  | some digits => '.' :: digits

def exponentText : Option (Bool × List Char) → List Char
  | none => []
  | some (negative, digits) => 'e' :: (sign negative ++ digits)

def text (n : Numeral) : List Char :=
  sign n.negative ++ (n.whole ++ (fractionText n.fraction ++ exponentText n.exponent))

def exponentValue : Option (Bool × List Char) → Int
  | none => 0
  | some (negative, digits) =>
    if negative then -(Single.digitsValue digits : Int) else Single.digitsValue digits

/-- The decimal that a numeral stands for, apart from its sign. -/
def decimal (n : Numeral) : Decimal where
  coefficient := Single.digitsValue (n.whole ++ n.fraction.getD [])
  exponent := exponentValue n.exponent - (n.fraction.getD []).length

/-- A text of decimal digits. -/
def Digits (text : List Char) : Prop := ∀ c ∈ text, c.isDigit = true

/-- The whole part and an exponent have at least one digit. -/
structure Proper (n : Numeral) : Prop where
  whole_ne : n.whole ≠ []
  whole : Digits n.whole
  fraction : ∀ digits ∈ n.fraction, Digits digits
  exponent : ∀ part ∈ n.exponent, part.2 ≠ [] ∧ Digits part.2

end Numeral

/-! ## Runs of digits -/

theorem takeWhile_digits {digits rest : List Char} (h : Numeral.Digits digits)
    (stop : ∀ c ∈ rest.head?, c.isDigit = false) :
    (digits ++ rest).takeWhile Char.isDigit = digits ∧
      (digits ++ rest).dropWhile Char.isDigit = rest := by
  rw [takeWhile_append_of_pos h, dropWhile_append_of_pos h]
  cases rest with
  | nil => simp
  | cons c rest =>
    have hc : c.isDigit = false := stop c rfl
    simp [hc]

/-- Characters that a test tells apart are different. -/
theorem ne_of_test {p : Char → Bool} {c d : Char} (hc : p c = true) (hd : p d = false) : c ≠ d := by
  rintro rfl
  rw [hc] at hd
  cases hd

namespace Numeral

variable {exponent : Option (Bool × List Char)} {n : Numeral} {fraction : Option (List Char)}

theorem head_exponentText :
    ∀ c ∈ (exponentText exponent).head?, c.isDigit = false ∧ c ≠ '.' := by
  cases exponent with
  | none => simp [exponentText]
  | some part => simp [exponentText]

theorem head_fractionText :
    ∀ c ∈ (fractionText fraction ++ exponentText exponent).head?, c.isDigit = false := by
  cases fraction with
  | none => exact fun c hc => (head_exponentText c hc).1
  | some digits => simp [fractionText]

theorem readExponent?_text (h : ∀ part ∈ exponent, part.2 ≠ [] ∧ Digits part.2) :
    Single.readExponent? (exponentText exponent) = some (exponentValue exponent) := by
  cases exponent with
  | none => rfl
  | some part =>
    obtain ⟨negative, digits⟩ := part
    obtain ⟨hne, hdigits⟩ := h _ rfl
    have hall : digits.all Char.isDigit = true := all_eq_true.mpr hdigits
    have hempty : digits.isEmpty = false := isEmpty_eq_false_iff.mpr hne
    cases negative with
    | true => simp [Single.readExponent?, exponentText, exponentValue, sign, hall, hempty]
    | false =>
      cases digits with
      | nil => exact absurd rfl hne
      | cons c rest =>
        have hminus : c ≠ '-' := ne_of_test (hdigits c (by simp)) rfl
        have hplus : c ≠ '+' := ne_of_test (hdigits c (by simp)) rfl
        simp only [exponentText, sign, Bool.false_eq_true, if_false, nil_append,
          Single.readExponent?, true_or, if_true]
        split
        next ds heq => exact absurd (cons.inj heq).1 hminus
        next ds heq => exact absurd (cons.inj heq).1 hplus
        next => simp [exponentValue, hall]

theorem readUnsigned?_text {negative : Bool} {whole : List Char}
    (h : Proper ⟨negative, whole, fraction, exponent⟩) :
    Single.readUnsigned? negative (whole ++ (fractionText fraction ++ exponentText exponent)) =
      some (Single.ofDecimal negative (decimal ⟨negative, whole, fraction, exponent⟩).coefficient
        (decimal ⟨negative, whole, fraction, exponent⟩).exponent) := by
  obtain ⟨hne, hwhole, hfraction, hexponent⟩ := h
  have hempty : whole.isEmpty = false := isEmpty_eq_false_iff.mpr hne
  obtain ⟨htake, hdrop⟩ := takeWhile_digits hwhole (@head_fractionText exponent fraction)
  unfold Single.readUnsigned?
  simp only [htake, hdrop, hempty, Bool.false_eq_true, false_and, if_false]
  cases fraction with
  | none =>
    simp only [fractionText, nil_append]
    split
    next hdot => exact absurd rfl (head_exponentText '.' (by rw [hdot]; rfl)).2
    next =>
      rw [readExponent?_text hexponent]
      rfl
  | some digits =>
    obtain ⟨htake, hdrop⟩ := takeWhile_digits (hfraction digits rfl)
      (fun c hc => (@head_exponentText exponent c hc).1)
    simp only [fractionText, cons_append, htake, hdrop]
    rw [readExponent?_text hexponent]
    rfl

/-- A proper numeral is read as the number nearest to its decimal. -/
theorem read?_text (h : n.Proper) : Single.read? n.text =
    some (Single.ofDecimal n.negative n.decimal.coefficient n.decimal.exponent) := by
  obtain ⟨negative, whole, fraction, exponent⟩ := n
  have hread := readUnsigned?_text h
  cases negative with
  | true => exact hread
  | false =>
    rw [← hread]
    cases whole with
    | nil => exact absurd rfl h.whole_ne
    | cons c rest =>
      have hminus : c ≠ '-' := ne_of_test (h.whole c (by simp)) rfl
      have hplus : c ≠ '+' := ne_of_test (h.whole c (by simp)) rfl
      simp only [text, sign, Bool.false_eq_true, if_false, nil_append, cons_append,
        Single.read?]
      split
      next heq => exact absurd (cons.inj heq).1 hminus
      next heq => exact absurd (cons.inj heq).1 hplus
      next => rfl

/-- A numeral begins with a sign or a digit. -/
theorem exists_head_text (h : n.Proper) : ∃ c rest, n.text = c :: rest ∧ (c = '-' ∨ c.isDigit = true) := by
  obtain ⟨negative, whole, fraction, exponent⟩ := n
  cases negative with
  | true => exact ⟨'-', _, rfl, Or.inl rfl⟩
  | false =>
    cases whole with
    | nil => exact absurd rfl h.whole_ne
    | cons c whole => exact ⟨c, _, rfl, Or.inr (h.whole c (by simp))⟩

end Numeral

/-! ## Values of digits -/

namespace Single

theorem digitsValue_eq (digits : List Char) : digitsValue digits = Nat.ofDigitChars 10 digits 0 := by
  rw [Nat.ofDigitChars_eq_foldl, digitsValue]
  congr 1
  funext n c
  rw [Nat.mul_comm]

theorem digitsValue_toDigits (n : Nat) : digitsValue (Nat.toDigits 10 n) = n := by
  rw [digitsValue_eq, Nat.ofDigitChars_ten_toDigits]

/-- Zeros in front do not count. -/
theorem digitsValue_zeros_append (n : Nat) (digits : List Char) :
    digitsValue (replicate n '0' ++ digits) = digitsValue digits := by
  rw [digitsValue_eq, Nat.ofDigitChars_append, Nat.ofDigitChars_replicate_zero, digitsValue_eq]
  simp

/-- Zeros at the end are powers of ten. -/
theorem digitsValue_append_zeros (digits : List Char) (n : Nat) :
    digitsValue (digits ++ replicate n '0') = digitsValue digits * 10 ^ n := by
  rw [digitsValue_eq, Nat.ofDigitChars_append, Nat.ofDigitChars_replicate_zero, digitsValue_eq,
    Nat.mul_comm]

end Single

/-! ## Texts of magnitudes -/

namespace NumberStyle

/-- A style whose texts are numerals with a point or an exponent. -/
def Marked (style : NumberStyle) : Prop := style.wholeMark = true ∧ style.exponentSign = ""

/-- Numerals that stand for the magnitude of a code. -/
structure Shows (n : Numeral) (code : Nat) : Prop where
  proper : n.Proper
  unsigned : n.negative = false
  marked : n.fraction.isSome ∨ n.exponent.isSome
  zero : code = 0 → n.decimal.coefficient = 0
  inside : 0 < code → Single.Inside code n.decimal.num n.decimal.den

theorem digits_toDigits (n : Nat) : Numeral.Digits (Nat.toDigits 10 n) := fun _ hc =>
  Nat.isDigit_of_mem_toDigits (by omega) (by omega) hc

theorem digits_zeros (n : Nat) : Numeral.Digits (replicate n '0') := fun c hc => by
  rw [eq_of_mem_replicate hc]
  rfl

theorem digits_append {a b : List Char} (ha : Numeral.Digits a) (hb : Numeral.Digits b) :
    Numeral.Digits (a ++ b) := fun c hc => (mem_append.mp hc).elim (ha c) (hb c)

variable {style : NumberStyle} {code : Nat} {d : Decimal}

theorem shows_of_decimal {n : Numeral} (proper : n.Proper) (unsigned : n.negative = false)
    (marked : n.fraction.isSome ∨ n.exponent.isSome) (positive : 0 < code)
    (h : Single.Inside code d.num d.den) (hd : n.decimal = d) : Shows n code where
  proper := proper
  unsigned := unsigned
  marked := marked
  zero := by omega
  inside _ := hd ▸ h

section Positional

variable {digits : List Char} {coefficient : Nat} {exponent : Int}

/-- Digits behind the point, with zeros in front of them. -/
theorem shows_small (positive : 0 < code) (hdigits : Numeral.Digits digits)
    (hvalue : Single.digitsValue digits = coefficient)
    (h : Single.Inside code (Decimal.mk coefficient exponent).num (Decimal.mk coefficient exponent).den)
    (small : exponent + digits.length ≤ 0) :
    Shows ⟨false, ['0'], some (zeros (exponent + digits.length).natAbs ++ digits), none⟩ code := by
  refine shows_of_decimal ⟨by simp, digits_zeros 1, ?_, by simp⟩ rfl (Or.inl rfl) positive h ?_
  · rintro _ ⟨⟩
    exact digits_append (digits_zeros _) hdigits
  · have hzeros := Single.digitsValue_zeros_append ((exponent + digits.length).natAbs + 1) digits
    simp only [Numeral.decimal, Numeral.exponentValue, Option.getD_some, Decimal.mk.injEq, zeros,
      length_append, length_replicate]
    exact ⟨hzeros.trans hvalue, by omega⟩

/-- A point between the digits. -/
theorem shows_between (positive : 0 < code) (hdigits : Numeral.Digits digits)
    (hvalue : Single.digitsValue digits = coefficient)
    (h : Single.Inside code (Decimal.mk coefficient exponent).num (Decimal.mk coefficient exponent).den)
    {n : Nat} (hn : (n : Int) = exponent + digits.length) (hpos : 0 < n) (between : n < digits.length) :
    Shows ⟨false, digits.take n, some (digits.drop n), none⟩ code := by
  refine shows_of_decimal ⟨?_, fun c hc => hdigits c (mem_of_mem_take hc), ?_, by simp⟩ rfl
    (Or.inl rfl) positive h ?_
  · intro hnil
    have := congrArg length hnil
    simp only [length_take, length_nil] at this
    omega
  · rintro _ ⟨⟩
    exact fun c hc => hdigits c (mem_of_mem_drop hc)
  · simp only [Numeral.decimal, Numeral.exponentValue, Option.getD_some, Decimal.mk.injEq,
      take_append_drop, length_drop]
    exact ⟨hvalue, by omega⟩

/-- A whole number is written with a zero behind the point: another decimal of the same value. -/
theorem shows_whole (positive : 0 < code) (hne : digits ≠ []) (hdigits : Numeral.Digits digits)
    (hvalue : Single.digitsValue digits = coefficient) {e : Nat}
    (h : Single.Inside code (Decimal.mk coefficient e).num (Decimal.mk coefficient e).den) :
    Shows ⟨false, digits ++ zeros e, some ['0'], none⟩ code where
  proper := by
    refine ⟨by simp [hne], digits_append hdigits (digits_zeros _), ?_, by simp⟩
    rintro _ ⟨⟩
    exact digits_zeros 1
  unsigned := rfl
  marked := Or.inl rfl
  zero := by omega
  inside _ := by
    have hcoefficient : Single.digitsValue ((digits ++ zeros e) ++ ['0']) =
        coefficient * 10 ^ (e + 1) := by
      rw [← hvalue, ← Single.digitsValue_append_zeros, replicate_succ', append_assoc, zeros]
    have hdecimal : Numeral.decimal ⟨false, digits ++ zeros e, some ['0'], none⟩ =
        ⟨coefficient * 10 ^ (e + 1), .negSucc 0⟩ := by
      simp only [Numeral.decimal, Option.getD_some, hcoefficient]
      rfl
    rw [hdecimal]
    refine h.congr (Decimal.den_pos _) (Decimal.den_pos _) ?_
    change coefficient * 10 ^ e * 10 ^ 1 = coefficient * 10 ^ (e + 1) * 1 * 1
    rw [Nat.mul_one, Nat.mul_one, pow_one, pow_succ, Nat.mul_assoc]

end Positional

/-- Positional digits show the decimal they come from. -/
theorem positional_shows (marked : style.Marked) (positive : 0 < code)
    (h : Single.Inside code d.num d.den) :
    ∃ n : Numeral, Shows n code ∧ n.text =
      style.positional (Nat.toDigits 10 d.coefficient)
        (d.exponent + (Nat.toDigits 10 d.coefficient).length) := by
  obtain ⟨coefficient, exponent⟩ := d
  have hdigits := digits_toDigits coefficient
  have hvalue := Single.digitsValue_toDigits coefficient
  have hne := @Nat.toDigits_ne_nil coefficient 10
  dsimp only
  generalize Nat.toDigits 10 coefficient = digits at hdigits hvalue hne ⊢
  unfold positional
  split
  next hpoint =>
    refine ⟨_, shows_small positive hdigits hvalue h hpoint, ?_⟩
    simp [Numeral.text, Numeral.sign, Numeral.fractionText, Numeral.exponentText]
  next hpoint =>
    dsimp only
    split
    next hinner =>
      refine ⟨_, shows_between positive hdigits hvalue h (n := (exponent + digits.length).toNat)
        (by omega) (by omega) hinner, ?_⟩
      simp [Numeral.text, Numeral.sign, Numeral.fractionText, Numeral.exponentText]
    next houter =>
      obtain ⟨e, rfl⟩ : ∃ e : Nat, exponent = e := ⟨exponent.toNat, by omega⟩
      refine ⟨_, shows_whole positive hne hdigits hvalue h, ?_⟩
      have : ((e : Int) + digits.length).toNat - digits.length = e := by omega
      simp [Numeral.text, Numeral.sign, Numeral.fractionText, Numeral.exponentText, this, marked.1]

/-- Digits with an exponent show the decimal they come from. -/
theorem scientific_shows (marked : style.Marked) (positive : 0 < code)
    (h : Single.Inside code d.num d.den) :
    ∃ n : Numeral, Shows n code ∧ n.text =
      style.scientific (Nat.toDigits 10 d.coefficient)
        (d.exponent + (Nat.toDigits 10 d.coefficient).length - 1) := by
  obtain ⟨coefficient, exponent⟩ := d
  have hdigits := digits_toDigits coefficient
  have hvalue := Single.digitsValue_toDigits coefficient
  have hpos := @Nat.length_toDigits_pos 10 coefficient
  dsimp only
  generalize Nat.toDigits 10 coefficient = digits at hdigits hvalue hpos ⊢
  generalize hpower : exponent + digits.length - 1 = power
  refine ⟨⟨false, digits.take 1, if (digits.drop 1).isEmpty then none else some (digits.drop 1),
    some (decide (power < 0), Nat.toDigits 10 power.natAbs)⟩,
    shows_of_decimal ⟨?_, fun c hc => hdigits c (mem_of_mem_take hc), ?_, ?_⟩ rfl (Or.inr rfl)
      positive h ?_, ?_⟩
  · intro hnil
    have := congrArg length hnil
    simp only [length_take, length_nil] at this
    omega
  · intro part hpart c hc
    split at hpart
    · cases hpart
    · cases hpart
      exact hdigits c (mem_of_mem_drop hc)
  · rintro _ ⟨⟩
    exact ⟨Nat.toDigits_ne_nil, digits_toDigits _⟩
  · have hfraction : (if (digits.drop 1).isEmpty then none else some (digits.drop 1)).getD [] =
        digits.drop 1 := by
      split
      next hempty => exact (isEmpty_iff.mp hempty).symm
      next => rfl
    simp only [Numeral.decimal, Numeral.exponentValue, hfraction, Decimal.mk.injEq,
      take_append_drop, length_drop, Single.digitsValue_toDigits]
    refine ⟨hvalue, ?_⟩
    by_cases hsign : power < 0
    · simp only [hsign, decide_true, if_true]
      omega
    · simp only [hsign, decide_false, Bool.false_eq_true, if_false]
      omega
  · simp only [scientific, Numeral.text, Numeral.sign, Numeral.exponentText, marked.2]
    split <;> split <;> simp_all [Numeral.fractionText]

/-- The text of a magnitude is a numeral that shows it. -/
theorem magnitude_shows (marked : style.Marked) (finite : code < 0x7f800000) :
    ∃ n : Numeral, Shows n code ∧ n.text = style.magnitude code := by
  unfold magnitude
  split
  next hzero =>
    subst hzero
    refine ⟨⟨false, ['0'], some ['0'], none⟩, ⟨⟨by simp, digits_zeros 1, ?_, by simp⟩, rfl,
      Or.inl rfl, fun _ => rfl, by omega⟩, by simp [Numeral.text, Numeral.sign, marked.1,
        Numeral.fractionText, Numeral.exponentText]⟩
    rintro _ ⟨⟩
    exact digits_zeros 1
  next hpositive =>
    have hpos := Nat.pos_of_ne_zero hpositive
    have hinside := @Single.shortest_inside style.tie code hpos finite
    dsimp only
    split
    · exact positional_shows marked hpos hinside
    · split
      · exact positional_shows marked hpos hinside
      · exact scientific_shows marked hpos hinside

/-- The text of a finite number is a proper numeral with a point or an exponent that reads back. -/
theorem exists_numeral (marked : style.Marked) (negative : Bool) (code : Fin 0x7f800000) :
    ∃ n : Numeral, n.Proper ∧ (n.fraction.isSome ∨ n.exponent.isSome) ∧
      (style.text (.finite negative code)).toList = n.text ∧
      Single.read? n.text = some (.finite negative code) := by
  obtain ⟨n, hshows, htext⟩ := @magnitude_shows style code marked code.isLt
  have hproper : Numeral.Proper { n with negative } :=
    ⟨hshows.proper.whole_ne, hshows.proper.whole, hshows.proper.fraction, hshows.proper.exponent⟩
  refine ⟨{ n with negative }, hproper, hshows.marked, ?_, ?_⟩
  · rw [text, String.toList_ofList, ← htext, Numeral.text, Numeral.text, hshows.unsigned]
    rfl
  · rw [Numeral.read?_text hproper]
    congr 1
    rcases Nat.eq_zero_or_pos code.val with hzero | hpos
    · have hcoefficient : (Numeral.decimal { n with negative }).coefficient = 0 := hshows.zero hzero
      unfold Single.ofDecimal
      rw [if_pos hcoefficient]
      congr 1
      exact Fin.ext hzero.symm
    · exact Single.ofDecimal_of_inside hpos code.isLt (hshows.inside hpos) negative

end NumberStyle

/-! ## Whole numbers -/

namespace Numeral

/-- The numeral of a whole number. -/
def ofInt (i : Int) : Numeral := ⟨decide (i < 0), Nat.toDigits 10 i.natAbs, none, none⟩

theorem ofInt_proper (i : Int) : (ofInt i).Proper where
  whole_ne := Nat.toDigits_ne_nil
  whole := NumberStyle.digits_toDigits _
  fraction := by simp [ofInt]
  exponent := by simp [ofInt]

theorem text_ofInt_neg {i : Int} (h : i < 0) : (ofInt i).text = '-' :: Nat.toDigits 10 i.natAbs := by
  simp [ofInt, text, sign, fractionText, exponentText, h]

theorem text_ofInt_nonneg {i : Int} (h : 0 ≤ i) : (ofInt i).text = Nat.toDigits 10 i.natAbs := by
  simp [ofInt, text, sign, fractionText, exponentText, not_lt.mpr h]

theorem toList_toString (i : Int) : (toString i).toList = (ofInt i).text := by
  cases i with
  | ofNat n =>
    rw [text_ofInt_nonneg (show 0 ≤ Int.ofNat n from Int.natCast_nonneg n)]
    exact String.toList_ofList
  | negSucc n =>
    rw [text_ofInt_neg (Int.negSucc_lt_zero n)]
    change ("-" ++ Nat.repr (n + 1)).toList = _
    simp [Nat.repr]

end Numeral

end NodeScript

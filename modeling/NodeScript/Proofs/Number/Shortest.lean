import NodeScript.Proofs.Number.Rounding

/-!
# The shortest decimal of a binary32 number

The search for the shortest decimal ends: a grid finer than the distance to the neighbouring numbers
has a point in the interval of every code. What it finds lies in this interval, so that it rounds
back to the code.
-/

namespace NodeScript

namespace Decimal

/-- Numerator of the value. -/
def num (d : Decimal) : Nat :=
  match d.exponent with
  | .ofNat e => d.coefficient * 10 ^ e
  | .negSucc _ => d.coefficient * 1

/-- Denominator of the value. -/
def den (d : Decimal) : Nat :=
  match d.exponent with
  | .ofNat _ => 1
  | .negSucc e => 10 ^ (e + 1)

theorem den_pos (d : Decimal) : 0 < d.den := by
  unfold den
  split
  · exact Nat.one_pos
  · exact Nat.pow_pos (by omega)

end Decimal

namespace Single

variable {tie : TieRule} {exponent : Int} {d : Decimal} {code : Nat}

/-- The test for the point `k * up / down` of a grid. -/
def gridTest (code up down k : Nat) : Bool :=
  if code % 2 == 0 then
    (steps (code - 1) + steps code) * down ≤ k * (up * 2 ^ 150) ∧
      k * (up * 2 ^ 150) ≤ (steps code + steps (code + 1)) * down
  else
    (steps (code - 1) + steps code) * down < k * (up * 2 ^ 150) ∧
      k * (up * 2 ^ 150) < (steps code + steps (code + 1)) * down

theorem gridTest_iff (code up down k : Nat) :
    gridTest code up down k = true ↔ Inside code (k * up) down := by
  unfold gridTest Inside
  rw [Nat.mul_assoc]
  by_cases h : code % 2 = 0 <;> simp [h]

/-- The choice between the two points of a grid around a value. -/
def choose (tie : TieRule) (test : Nat → Bool) (value unit : Nat) (exponent : Int) :
    Option Decimal :=
  if test (value / unit) then
    if test (value / unit + 1) ∧ tie.goesUp (value / unit) (value % unit) unit then
      some ⟨value / unit + 1, exponent⟩
    else some ⟨value / unit, exponent⟩
  else if test (value / unit + 1) then some ⟨value / unit + 1, exponent⟩
  else none

theorem onGrid_ofNat (tie : TieRule) (code e : Nat) : onGrid tie code (.ofNat e) =
    choose tie (gridTest code (10 ^ e) 1) (2 * steps code * 1) (10 ^ e * 2 ^ 150) (.ofNat e) :=
  rfl

theorem onGrid_negSucc (tie : TieRule) (code e : Nat) : onGrid tie code (.negSucc e) =
    choose tie (gridTest code 1 (10 ^ (e + 1))) (2 * steps code * 10 ^ (e + 1)) (1 * 2 ^ 150)
      (.negSucc e) :=
  rfl

theorem test_of_choose {test : Nat → Bool} {value unit : Nat} (h : choose tie test value unit exponent = some d) :
    test d.coefficient = true ∧ d.exponent = exponent := by
  unfold choose at h
  split_ifs at h with below both above
  · cases h
    exact ⟨both.1, rfl⟩
  · cases h
    exact ⟨below, rfl⟩
  · cases h
    exact ⟨above, rfl⟩

/-- A point that the search takes from a grid lies in the interval of the code. -/
theorem onGrid_inside (h : onGrid tie code exponent = some d) : Inside code d.num d.den := by
  obtain ⟨coefficient, power⟩ := d
  cases exponent with
  | ofNat e =>
    rw [onGrid_ofNat] at h
    obtain ⟨htest, rfl⟩ := test_of_choose h
    exact (gridTest_iff code (10 ^ e) 1 coefficient).mp htest
  | negSucc e =>
    rw [onGrid_negSucc] at h
    obtain ⟨htest, rfl⟩ := test_of_choose h
    exact (gridTest_iff code 1 (10 ^ (e + 1)) coefficient).mp htest

/-- On a grid finer than the distance to the lower neighbour, the point below the value is
inside. -/
theorem below_inside {down : Nat} (positive : 0 < code) (fine : 2 ^ 150 < down) :
    Inside code (2 * steps code * down / 2 ^ 150) down := by
  have hdiv := Nat.div_add_mod (2 * steps code * down) (2 ^ 150)
  have hmod := Nat.mod_lt (2 * steps code * down) (Nat.two_pow_pos 150)
  have hprev : steps (code - 1) < steps code := steps_strictMono (by omega)
  have hnext : steps code < steps (code + 1) := steps_strictMono (by omega)
  generalize 2 * steps code * down / 2 ^ 150 = q at hdiv ⊢
  generalize 2 * steps code * down % 2 ^ 150 = r at hdiv hmod
  have hlow : (steps (code - 1) + steps code) * down < q * 2 ^ 150 := by
    have : (steps (code - 1) + 1) * down ≤ steps code * down := Nat.mul_le_mul_right _ hprev
    nlinarith
  have hhigh : q * 2 ^ 150 < (steps code + steps (code + 1)) * down := by
    have : (steps code + 1) * down ≤ steps (code + 1) * down := Nat.mul_le_mul_right _ hnext
    nlinarith
  unfold Inside
  split
  · exact ⟨hlow.le, hhigh.le⟩
  · exact ⟨hlow, hhigh⟩

theorem onGrid_fine (positive : 0 < code) {e : Nat} (fine : 45 ≤ e) :
    (onGrid tie code (.negSucc e)).isSome := by
  have hpow : 2 ^ 150 < 10 ^ (e + 1) :=
    calc 2 ^ 150 < 10 ^ 46 := by norm_num
      _ ≤ 10 ^ (e + 1) := Nat.pow_le_pow_right (by omega) (by omega)
  have hbelow : gridTest code 1 (10 ^ (e + 1))
      (2 * steps code * 10 ^ (e + 1) / (1 * 2 ^ 150)) = true := by
    rw [gridTest_iff, Nat.one_mul, Nat.mul_one]
    exact below_inside positive hpow
  rw [onGrid_negSucc, choose, if_pos hbelow]
  split <;> rfl

/-- Refining ends at the latest on a fine grid. -/
theorem refine_inside (positive : 0 < code) (fuel : Nat) (exponent : Int) (h : exponent - fuel < -46)
    (start : -46 ≤ exponent ∨ 0 < fuel) :
    Inside code (refine tie code fuel exponent).num (refine tie code fuel exponent).den := by
  induction fuel generalizing exponent with
  | zero => omega
  | succ fuel ih =>
    unfold refine
    split
    next d hd => exact onGrid_inside hd
    next hnone =>
      refine ih (exponent - 1) (by push_cast at h; omega) ?_
      by_contra hcoarse
      obtain ⟨e, rfl⟩ : ∃ e, exponent = .negSucc e := ⟨exponent.natAbs - 1, by omega⟩
      have := @onGrid_fine tie code positive e (by omega)
      rw [hnone] at this
      cases this

theorem steps_lt_of_finite (finite : code < 0x7f800000) : steps code < 2 ^ 24 * 2 ^ 253 := by
  rcases Nat.eq_zero_or_pos code with rfl | positive
  · exact Nat.mul_pos (Nat.two_pow_pos _) (Nat.two_pow_pos _)
  obtain ⟨m, shift, rfl, -, hlt, hnormal, hsteps, -⟩ := exists_units positive
  rw [hsteps]
  calc m * 2 ^ shift < 2 ^ 24 * 2 ^ shift := Nat.mul_lt_mul_of_pos_right hlt (Nat.two_pow_pos _)
    _ ≤ 2 ^ 24 * 2 ^ 253 := Nat.mul_le_mul_left _ (Nat.pow_le_pow_right (by omega) (by omega))

theorem log2_lt_of_lt_mul {n a b : Nat} (h : n < 2 ^ (a + 1) * 2 ^ b) : n.log2 ≤ a + b :=
  lt_log2_succ (h.trans_eq (by rw [← pow_add]; congr 1; omega))

/-- The shortest decimal of a finite number reads back. -/
theorem shortest_inside (positive : 0 < code) (finite : code < 0x7f800000) :
    Inside code (shortest tie code).num (shortest tie code).den := by
  have hlog : (steps code).log2 ≤ 23 + 253 := log2_lt_of_lt_mul (steps_lt_of_finite finite)
  refine refine_inside positive _ _ ?_ (Or.inr (by omega))
  omega

/-! ## Reading a decimal -/

theorem lt_pow_log2 (n : Nat) : n < 10 ^ (n.log2 / 3 + 1) :=
  calc n < 2 ^ (n.log2 + 1) := Nat.lt_log2_self
    _ ≤ 2 ^ (3 * (n.log2 / 3 + 1)) := Nat.pow_le_pow_right (by omega) (by omega)
    _ = 8 ^ (n.log2 / 3 + 1) := by rw [pow_mul]; norm_num
    _ ≤ 10 ^ (n.log2 / 3 + 1) := Nat.pow_le_pow_left (by omega) _

/-- A decimal in the interval of a code is neither too large nor too small to be formed. -/
theorem Inside.moderate (positive : 0 < code) (finite : code < 0x7f800000) (h : Inside code d.num d.den) :
    d.coefficient ≠ 0 ∧ d.exponent ≤ 60 ∧ -60 ≤ d.exponent + (d.coefficient.log2 / 3 + 1 : Nat) := by
  obtain ⟨low, high⟩ := h.le
  have hpos : 1 * d.den ≤ d.num * 2 ^ 150 :=
    (Nat.mul_le_mul_right _ (by have := le_steps code; omega)).trans low
  obtain ⟨k, exponent⟩ := d
  have hne : k ≠ 0 := by
    rintro rfl
    have := (Decimal.mk 0 exponent).den_pos
    have : (Decimal.mk 0 exponent).num = 0 := by cases exponent <;> simp [Decimal.num]
    omega
  refine ⟨hne, ?_, ?_⟩
  · cases exponent with
    | negSucc e => exact (Int.negSucc_lt_zero e).le.trans (by decide)
    | ofNat e =>
      by_contra hlarge
      have hsteps := steps_lt_of_finite finite
      have hnext : steps (code + 1) ≤ steps code + 2 ^ 253 := by
        rw [steps_succ]
        exact Nat.add_le_add_left (Nat.pow_le_pow_right (by omega) (by omega)) _
      have hpow : 10 ^ 61 ≤ k * 10 ^ e :=
        (Nat.pow_le_pow_right (by omega) (by simp at hlarge; omega)).trans
          (Nat.le_mul_of_pos_left _ (by omega))
      have hbound : 10 ^ 61 * 2 ^ 150 ≤ 2 ^ 24 * 2 ^ 253 + 2 ^ 24 * 2 ^ 253 + 2 ^ 253 :=
        calc 10 ^ 61 * 2 ^ 150 ≤ k * 10 ^ e * 2 ^ 150 := Nat.mul_le_mul_right _ hpow
          _ ≤ (steps code + steps (code + 1)) * 1 := high
          _ ≤ _ := by omega
      norm_num at hbound
  · cases exponent with
    | ofNat e => exact (by omega : (-60 : Int) ≤ 0).trans (by simp; omega)
    | negSucc e =>
      by_contra hsmall
      have hexp : 50 + (k.log2 / 3 + 1) ≤ e + 1 := by simp at hsmall; omega
      have hden : 10 ^ 50 * 10 ^ (k.log2 / 3 + 1) ≤ k * 1 * 2 ^ 150 :=
        calc 10 ^ 50 * 10 ^ (k.log2 / 3 + 1) = 10 ^ (50 + (k.log2 / 3 + 1)) :=
              (pow_add 10 50 _).symm
          _ ≤ 10 ^ (e + 1) := Nat.pow_le_pow_right (by omega) hexp
          _ ≤ k * 1 * 2 ^ 150 := by simpa [Decimal.den, Decimal.num] using hpos
      have hlt := lt_pow_log2 k
      have : k * 2 ^ 150 < 10 ^ 50 * 10 ^ (k.log2 / 3 + 1) :=
        calc k * 2 ^ 150 < 10 ^ (k.log2 / 3 + 1) * 2 ^ 150 :=
              Nat.mul_lt_mul_of_pos_right hlt (Nat.two_pow_pos _)
          _ ≤ 10 ^ (k.log2 / 3 + 1) * 10 ^ 50 := Nat.mul_le_mul_left _ (by norm_num)
          _ = _ := Nat.mul_comm _ _
      omega

/-- A decimal in the interval of a code is read as this code. -/
theorem ofDecimal_of_inside (positive : 0 < code) (finite : code < 0x7f800000) (h : Inside code d.num d.den)
    (negative : Bool) : ofDecimal negative d.coefficient d.exponent = .finite negative ⟨code, finite⟩ := by
  obtain ⟨hne, hlarge, hsmall⟩ := h.moderate positive finite
  unfold ofDecimal
  rw [if_neg hne, if_neg (by omega), if_neg (by omega)]
  have hquotient := ofQuotient_of_inside positive finite d.den_pos h negative
  unfold Decimal.num Decimal.den at hquotient
  cases hexponent : d.exponent with
  | ofNat e => simpa only [hexponent] using hquotient
  | negSucc e => simpa only [hexponent, Nat.mul_one] using hquotient

end Single

end NodeScript

import Mathlib.Tactic.Linarith
import Mathlib.Tactic.Ring
import NodeScript.Number.Decimal

/-!
# Rounding to binary32 numbers

A quotient that lies between the midpoints around a code rounds to this code. The midpoints belong
to an even code and not to an odd one, as ties go to the even neighbour.
-/

namespace NodeScript.Single

variable {code num den m shift n k : Nat}

/-- A quotient that lies in the interval of a code: between the midpoints to the two neighbours,
which count for an even code only. -/
def Inside (code num den : Nat) : Prop :=
  if code % 2 = 0 then
    (steps (code - 1) + steps code) * den ≤ num * 2 ^ 150 ∧
      num * 2 ^ 150 ≤ (steps code + steps (code + 1)) * den
  else
    (steps (code - 1) + steps code) * den < num * 2 ^ 150 ∧
      num * 2 ^ 150 < (steps code + steps (code + 1)) * den

theorem Inside.le (h : Inside code num den) :
    (steps (code - 1) + steps code) * den ≤ num * 2 ^ 150 ∧
      num * 2 ^ 150 ≤ (steps code + steps (code + 1)) * den := by
  unfold Inside at h
  split at h
  · exact h
  · exact ⟨h.1.le, h.2.le⟩

theorem Inside.lt (h : Inside code num den) (odd : code % 2 = 1) :
    (steps (code - 1) + steps code) * den < num * 2 ^ 150 ∧
      num * 2 ^ 150 < (steps code + steps (code + 1)) * den := by
  unfold Inside at h
  rwa [if_neg (by omega)] at h

/-- Only the value of the quotient counts. -/
theorem Inside.congr {num' den' : Nat} (h : Inside code num den) (hden : 0 < den) (hden' : 0 < den')
    (same : num * den' = num' * den) : Inside code num' den' := by
  have scale (x : Nat) : x * den' * den = x * den * den' := by ring
  have value : num' * 2 ^ 150 * den = num * 2 ^ 150 * den' := by
    calc num' * 2 ^ 150 * den = num' * den * 2 ^ 150 := by ring
      _ = num * 2 ^ 150 * den' := by rw [← same]; ring
  unfold Inside at h ⊢
  split at h
  · rw [if_pos ‹_›]
    constructor
    · refine Nat.le_of_mul_le_mul_right ?_ hden
      rw [scale, value]
      exact Nat.mul_le_mul_right den' h.1
    · refine Nat.le_of_mul_le_mul_right ?_ hden
      rw [scale, value]
      exact Nat.mul_le_mul_right den' h.2
  · rw [if_neg ‹_›]
    constructor
    · refine Nat.lt_of_mul_lt_mul_right (a := den) ?_
      rw [scale, value]
      exact Nat.mul_lt_mul_of_pos_right h.1 hden'
    · refine Nat.lt_of_mul_lt_mul_right (a := den) ?_
      rw [scale, value]
      exact Nat.mul_lt_mul_of_pos_right h.2 hden'

/-! ## Steps of neighbouring codes -/

theorem steps_of_shift {code shift : Nat} (h : code / 2 ^ 23 - 1 = shift) :
    steps code = (code - shift * 2 ^ 23) * 2 ^ shift := by
  subst h
  rfl

/-- Inside a binade the next code is one unit of the last place further. -/
theorem steps_succ (code : Nat) : steps (code + 1) = steps code + 2 ^ (code / 2 ^ 23 - 1) := by
  rw [@steps_of_shift code _ rfl]
  by_cases h : (code + 1) / 2 ^ 23 - 1 = code / 2 ^ 23 - 1
  · rw [steps_of_shift h]
    have : code + 1 - (code / 2 ^ 23 - 1) * 2 ^ 23 = code - (code / 2 ^ 23 - 1) * 2 ^ 23 + 1 := by
      omega
    rw [this]
    ring
  · -- The first code of the next binade has half as many units of twice the size.
    obtain ⟨shift, hshift⟩ : ∃ shift, code / 2 ^ 23 - 1 = shift := ⟨_, rfl⟩
    have hnext : (code + 1) / 2 ^ 23 - 1 = shift + 1 := by omega
    have hcode : code + 1 = (shift + 2) * 2 ^ 23 := by omega
    rw [steps_of_shift hnext, hshift]
    have h1 : code + 1 - (shift + 1) * 2 ^ 23 = 2 ^ 23 := by omega
    have h2 : code - shift * 2 ^ 23 = 2 ^ 24 - 1 := by omega
    rw [h1, h2, pow_succ]
    ring

theorem le_steps (code : Nat) : code ≤ steps code := by
  induction code with
  | zero => exact Nat.zero_le _
  | succ code ih =>
    rw [steps_succ]
    have := Nat.one_le_two_pow (n := code / 2 ^ 23 - 1)
    omega

theorem steps_strictMono : StrictMono steps := by
  apply strictMono_nat_of_lt_succ
  intro code
  rw [steps_succ]
  have := Nat.one_le_two_pow (n := code / 2 ^ 23 - 1)
  omega

/-! ## Rounding a quotient -/

/-- A quotient within half a unit of an integer rounds to it, with the ends for an even one. -/
theorem roundQuotient_eq (hden : 0 < den) (low : 2 * m * den ≤ 2 * num + den) (high : 2 * num ≤ (2 * m + 1) * den)
    (odd : m % 2 = 1 → 2 * m * den < 2 * num + den ∧ 2 * num < (2 * m + 1) * den) : roundQuotient num den = m := by
  have hdiv := Nat.div_add_mod num den
  have hmod := Nat.mod_lt num hden
  unfold roundQuotient
  generalize num / den = q at hdiv ⊢
  generalize num % den = r at hdiv hmod ⊢
  subst hdiv
  have hle : m ≤ q + 1 := by
    by_contra h
    have : den * (q + 2) ≤ den * m := Nat.mul_le_mul_left den (by omega)
    nlinarith
  have hge : q ≤ m := by
    by_contra h
    have : den * (m + 1) ≤ den * q := Nat.mul_le_mul_left den (by omega)
    nlinarith
  obtain rfl | rfl : q = m ∨ m = q + 1 := by omega
  · rw [if_pos]
    by_cases h : 2 * r < den
    · exact Or.inl h
    · refine Or.inr ⟨by nlinarith, ?_⟩
      by_contra hodd
      have := (odd (by omega)).2
      nlinarith
  · rw [if_neg]
    rintro (h | ⟨h, heven⟩)
    · nlinarith
    · have := (odd (by omega)).1
      nlinarith

/-- The binade of a code and the number of units of the last place in it. -/
theorem exists_units (positive : 0 < code) :
    ∃ m shift, code = m + shift * 2 ^ 23 ∧ 0 < m ∧ m < 2 ^ 24 ∧ (0 < shift → 2 ^ 23 ≤ m) ∧
      steps code = m * 2 ^ shift ∧ steps (code + 1) = (m + 1) * 2 ^ shift := by
  obtain ⟨shift, hshift⟩ : ∃ shift, code / 2 ^ 23 - 1 = shift := ⟨_, rfl⟩
  have hsteps := steps_of_shift hshift
  refine ⟨code - shift * 2 ^ 23, shift, by omega, by omega, by omega, by omega, hsteps, ?_⟩
  rw [steps_succ, hshift, hsteps]
  ring

/-- Below the first code of a binade the units are half as large. -/
theorem steps_pred (hm : 0 < m) (hlt : m < 2 ^ 24) (hshift : 0 < shift → 2 ^ 23 ≤ m) :
    if m = 2 ^ 23 ∧ 0 < shift then
      steps (m + shift * 2 ^ 23 - 1) = (2 ^ 24 - 1) * 2 ^ (shift - 1)
    else steps (m + shift * 2 ^ 23 - 1) = (m - 1) * 2 ^ shift := by
  split
  next h =>
    obtain ⟨shift, rfl⟩ : ∃ k, shift = k + 1 := ⟨shift - 1, by omega⟩
    rw [@steps_of_shift _ shift (by omega), h.1]
    congr 1
    omega
  next h =>
    rw [@steps_of_shift _ shift (by omega)]
    congr 1
    omega

theorem lt_log2_succ (h : n < 2 ^ (k + 1)) : n.log2 ≤ k := by
  rcases Nat.eq_zero_or_pos n with rfl | hn
  · simp
  · exact Nat.lt_succ_iff.mp ((Nat.log2_lt (by omega)).mpr h)

theorem le_log2_of_pow_le (h : 2 ^ k ≤ n) : k ≤ n.log2 :=
  (Nat.le_log2 (by have := Nat.one_le_two_pow (n := k); omega)).mpr h

/-- The exponent that rounding finds for a quotient, from bounds on the quotient. -/
theorem shift_eq {n den shift : Nat} (hden : 0 < den) (high : n < 2 ^ (24 + shift) * den)
    (low : 0 < shift → 2 ^ (23 + shift) * den ≤ n) : (n / den).log2 - 23 = shift := by
  have hlog : (n / den).log2 ≤ 23 + shift :=
    lt_log2_succ ((Nat.div_lt_iff_lt_mul hden).mpr (by rw [show 23 + shift + 1 = 24 + shift by omega]; exact high))
  rcases Nat.eq_zero_or_pos shift with rfl | hpos
  · omega
  · have := le_log2_of_pow_le ((Nat.le_div_iff_mul_le hden).mpr (low hpos))
    omega

/-- The code of the quotient `n / den` of steps, as rounding finds it. -/
def roundedCode (n den : Nat) : Nat :=
  let shift := (n / den).log2 - 23
  roundQuotient n (den * 2 ^ shift) + shift * 2 ^ 23

theorem roundedCode_of_shift (h : (n / den).log2 - 23 = shift) :
    roundedCode n den = roundQuotient n (den * 2 ^ shift) + shift * 2 ^ 23 := by
  subst h
  rfl

theorem below_binade (hden : 0 < den) (hlt : m < 2 ^ 24) (high : 2 * n ≤ (2 * m + 1) * (den * 2 ^ shift)) :
    n < 2 ^ (24 + shift) * den := by
  have hunit : 0 < den * 2 ^ shift := Nat.mul_pos hden (Nat.two_pow_pos _)
  have : (2 * m + 1) * (den * 2 ^ shift) ≤ (2 ^ 25 - 1) * (den * 2 ^ shift) :=
    Nat.mul_le_mul_right _ (by omega)
  rw [pow_add]
  nlinarith

/-- A quotient within half a unit of a code whose lower neighbour is in the same binade. -/
theorem roundedCode_inner (hden : 0 < den) (hlt : m < 2 ^ 24) (hnormal : 0 < shift → 2 ^ 23 < m)
    (low : 2 * m * (den * 2 ^ shift) ≤ 2 * n + den * 2 ^ shift) (high : 2 * n ≤ (2 * m + 1) * (den * 2 ^ shift))
    (odd : m % 2 = 1 → 2 * m * (den * 2 ^ shift) < 2 * n + den * 2 ^ shift ∧
      2 * n < (2 * m + 1) * (den * 2 ^ shift)) :
    roundedCode n den = m + shift * 2 ^ 23 := by
  have above : 0 < shift → 2 ^ (23 + shift) * den ≤ n := by
    intro hpos
    have : (2 ^ 23 + 1) * (den * 2 ^ shift) ≤ m * (den * 2 ^ shift) :=
      Nat.mul_le_mul_right _ (hnormal hpos)
    rw [pow_add]
    nlinarith
  rw [roundedCode_of_shift (shift_eq hden (below_binade hden hlt high) above)]
  rw [roundQuotient_eq (Nat.mul_pos hden (Nat.two_pow_pos _)) low high odd]

/-- Just below the first code of a binade the units are finer, and the largest number of them is
rounded up into the binade. -/
theorem roundedCode_first (hden : 0 < den) (low : 2 ^ 25 * (den * 2 ^ shift) ≤ 2 * n + den * 2 ^ shift)
    (high : 2 * n ≤ (2 * 2 ^ 23 + 1) * (den * 2 ^ (shift + 1))) :
    roundedCode n den = 2 ^ 23 + (shift + 1) * 2 ^ 23 := by
  have hunit : 0 < den * 2 ^ shift := Nat.mul_pos hden (Nat.two_pow_pos _)
  by_cases hcross : 2 ^ (24 + shift) * den ≤ n
  · have hshift := @shift_eq n den (shift + 1) hden (below_binade hden (by omega) high) fun _ => by
      rw [show 23 + (shift + 1) = 24 + shift by omega]
      exact hcross
    rw [roundedCode_of_shift hshift, roundQuotient_eq (m := 2 ^ 23) _ _ high (by omega)]
    · exact Nat.mul_pos hden (Nat.two_pow_pos _)
    · rw [pow_succ _ shift]
      nlinarith
  · have hshift := @shift_eq n den shift hden (Nat.lt_of_not_le hcross) fun _ => by
      rw [pow_add]
      nlinarith
    rw [pow_add] at hcross
    rw [roundedCode_of_shift hshift, roundQuotient_eq (m := 2 ^ 24) hunit (by nlinarith) (by nlinarith)
      (by omega)]
    ring

theorem roundedCode_of_inside (positive : 0 < code) (hden : 0 < den) (h : Inside code num den) :
    roundedCode (num * 2 ^ 149) den = code := by
  obtain ⟨m, shift, rfl, hm, hlt, hnormal, hsteps, hnext⟩ := exists_units positive
  have hprev := steps_pred hm hlt hnormal
  have hle := h.le
  have hodd : m % 2 = 1 → _ := fun odd => h.lt (by omega)
  rw [hsteps, hnext] at hle hodd
  have twice : num * 2 ^ 150 = 2 * (num * 2 ^ 149) := by
    rw [pow_succ]
    ring
  rw [twice] at hle hodd
  have hhigh : (m * 2 ^ shift + (m + 1) * 2 ^ shift) * den = (2 * m + 1) * (den * 2 ^ shift) := by
    ring
  rw [hhigh] at hle hodd
  split at hprev
  next hfirst =>
    obtain ⟨rfl, hpos⟩ := hfirst
    obtain ⟨shift, rfl⟩ : ∃ k, shift = k + 1 := ⟨shift - 1, by omega⟩
    refine roundedCode_first hden ?_ hle.2
    rw [hprev] at hle
    calc 2 ^ 25 * (den * 2 ^ shift)
        = ((2 ^ 24 - 1) * 2 ^ shift + 2 ^ 23 * 2 ^ (shift + 1)) * den + den * 2 ^ shift := by
          rw [pow_succ _ shift]
          ring
      _ ≤ 2 * (num * 2 ^ 149) + den * 2 ^ shift := Nat.add_le_add_right hle.1 _
  next hinner =>
    have hlow : (steps (m + shift * 2 ^ 23 - 1) + m * 2 ^ shift) * den + den * 2 ^ shift =
        2 * m * (den * 2 ^ shift) := by
      obtain ⟨m, rfl⟩ : ∃ k, m = k + 1 := ⟨m - 1, by omega⟩
      rw [hprev, Nat.add_sub_cancel]
      ring
    refine roundedCode_inner hden hlt (by omega) ?_ hle.2 fun odd => ⟨?_, (hodd odd).2⟩
    · rw [← hlow]
      exact Nat.add_le_add_right hle.1 _
    · rw [← hlow]
      exact Nat.add_lt_add_right (hodd odd).1 _

/-- What lies in the interval of a code rounds to it. -/
theorem ofQuotient_of_inside (positive : 0 < code) (finite : code < 0x7f800000) (hden : 0 < den)
    (h : Inside code num den) (negative : Bool) : ofQuotient negative num den = .finite negative ⟨code, finite⟩ := by
  change ofCode negative (roundedCode (num * 2 ^ 149) den) = _
  rw [roundedCode_of_inside positive hden h]
  exact dif_pos finite

end NodeScript.Single

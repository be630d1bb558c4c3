import Mathlib.Tactic
import SyntaxDump.Decimal.Rounded
import SyntaxDump.Proofs.Binary64.Rounding
import SyntaxDump.Proofs.Decimal.Digits

/-!
# Decimals and the ratios they approximate

A decimal of `count` digits is a coefficient with that many digits and the
power of ten of the first one.  The first digit of a ratio is found by counting
digits, without a logarithm; divided by the power of ten of its last shown
digit, the ratio lies between two coefficients of the right length.
-/

namespace SyntaxDump
namespace Decimal

/-! ## The power of the first digit -/

theorem leadingPower_of_le {num den : Nat} (hden : 0 < den) (hle : den ≤ num) :
    ∃ k : Nat, leadingPower num den = k ∧
      10 ^ k * den ≤ num ∧ num < 10 ^ (k + 1) * den := by
  obtain ⟨k, hk, hlow, hhigh⟩ := digitCount_bounds (Nat.div_pos hle hden)
  rw [Nat.le_div_iff_mul_le hden] at hlow
  rw [Nat.div_lt_iff_lt_mul hden] at hhigh
  refine ⟨k, ?_, hlow, hhigh⟩
  rw [leadingPower, if_pos hle, hk]
  simp

theorem leadingPower_of_lt {num den : Nat} (hnum : 0 < num) (hlt : num < den) :
    ∃ k : Nat, leadingPower num den = -((k + 1 : ℕ) : ℤ) ∧
      10 ^ k * num < den ∧ den ≤ 10 ^ (k + 1) * num := by
  obtain ⟨m, hm⟩ : ∃ m, (den + num - 1) / num - 1 = m := ⟨_, rfl⟩
  have htwo : 2 ≤ (den + num - 1) / num :=
    (Nat.le_div_iff_mul_le hnum).mpr (by omega)
  have hsucc : m + 1 = (den + num - 1) / num := by omega
  have hbelow : m * num < den := by
    have hdiv := Nat.div_mul_le_self (den + num - 1) num
    rw [← hsucc, add_mul, one_mul] at hdiv
    omega
  have habove : den ≤ (m + 1) * num := by
    have hrest := Nat.lt_div_mul_add (a := den + num - 1) hnum
    rw [hsucc]
    omega
  obtain ⟨k, hk, hlow, hhigh⟩ := digitCount_bounds (n := m) (by omega)
  refine ⟨k, ?_, ?_, ?_⟩
  · rw [leadingPower, if_neg (by omega), hm, hk]
    rfl
  · exact lt_of_le_of_lt (Nat.mul_le_mul_right _ hlow) hbelow
  · exact habove.trans (Nat.mul_le_mul_right _ hhigh)

/-- A ratio divided by the power of its first digit is at least one and less
than ten. -/
theorem leadingPower_bounds {num den : Nat} (hnum : 0 < num) (hden : 0 < den) :
    (10 : ℚ) ^ leadingPower num den ≤ num / den ∧
      (num / den : ℚ) < 10 ^ (leadingPower num den + 1) := by
  have hdenQ : (0 : ℚ) < den := by exact_mod_cast hden
  have hnumQ : (0 : ℚ) < num := by exact_mod_cast hnum
  rcases Nat.lt_or_ge num den with hlt | hle
  · obtain ⟨k, hk, hlow, hhigh⟩ := leadingPower_of_lt hnum hlt
    have hlowQ : (10 : ℚ) ^ k * num < den := by exact_mod_cast hlow
    have hhighQ : (den : ℚ) ≤ 10 ^ (k + 1) * num := by exact_mod_cast hhigh
    rw [hk]
    constructor
    · rw [zpow_neg, zpow_natCast, le_div_iff₀ hdenQ, inv_mul_le_iff₀ (by positivity)]
      exact hhighQ
    · rw [show -((k + 1 : ℕ) : ℤ) + 1 = -((k : ℕ) : ℤ) by push_cast; ring, zpow_neg,
        zpow_natCast, div_lt_iff₀ hdenQ, lt_inv_mul_iff₀ (by positivity)]
      exact hlowQ
  · obtain ⟨k, hk, hlow, hhigh⟩ := leadingPower_of_le hden hle
    have hlowQ : (10 : ℚ) ^ k * den ≤ num := by exact_mod_cast hlow
    have hhighQ : (num : ℚ) < 10 ^ (k + 1) * den := by exact_mod_cast hhigh
    rw [hk]
    constructor
    · rw [zpow_natCast, le_div_iff₀ hdenQ]
      exact hlowQ
    · rw [show (k : ℤ) + 1 = ((k + 1 : ℕ) : ℤ) by simp, zpow_natCast, div_lt_iff₀ hdenQ]
      exact hhighQ

/-! ## Scaled ratios -/

theorem overTenPow_pos {num den : Nat} (hden : 0 < den) (power : Int) :
    0 < (overTenPow num den power).2 := by
  cases power with
  | ofNat p => exact Nat.mul_pos hden (by positivity)
  | negSucc p => exact hden

theorem overTenPow_ratio (num : Nat) {den : Nat} (hden : 0 < den) (power : Int) :
    ((overTenPow num den power).1 : ℚ) / (overTenPow num den power).2 =
      num / den / 10 ^ power := by
  have hdenQ : (den : ℚ) ≠ 0 := by exact_mod_cast hden.ne'
  cases power with
  | ofNat p =>
      simp only [overTenPow, Int.ofNat_eq_natCast, zpow_natCast]
      push_cast
      rw [div_div]
  | negSucc p =>
      simp only [overTenPow, zpow_negSucc]
      push_cast
      rw [div_inv_eq_mul]
      ring

theorem below_bounds {num den : Nat} (hnum : 0 < num) (hden : 0 < den)
    {count : Nat} (hcount : 0 < count) :
    let grid := overTenPow num den (leadingPower num den - (Int.ofNat count - 1))
    10 ^ (count - 1) ≤ grid.1 / grid.2 ∧ grid.1 / grid.2 < 10 ^ count := by
  intro grid
  have hpos : 0 < grid.2 := overTenPow_pos hden _
  have hposQ : (0 : ℚ) < grid.2 := by exact_mod_cast hpos
  obtain ⟨hlow, hhigh⟩ := leadingPower_bounds hnum hden
  have hratio := overTenPow_ratio num hden (leadingPower num den - (Int.ofNat count - 1))
  obtain ⟨k, rfl⟩ : ∃ k, count = k + 1 := ⟨count - 1, by omega⟩
  have hk : Int.ofNat (k + 1) - 1 = (k : ℤ) := by simp
  rw [show overTenPow num den (leadingPower num den - (Int.ofNat (k + 1) - 1)) = grid from rfl,
    hk] at hratio
  have hten : (0 : ℚ) < 10 ^ (leadingPower num den - k) := by positivity
  constructor
  · rw [Nat.le_div_iff_mul_le hpos, Nat.add_sub_cancel]
    have hle : (10 : ℚ) ^ k ≤ (grid.1 : ℚ) / grid.2 := by
      rw [hratio, le_div_iff₀ hten, ← zpow_natCast, ← zpow_add₀ (by norm_num)]
      rw [add_sub_cancel]
      exact hlow
    rw [le_div_iff₀ hposQ] at hle
    exact_mod_cast hle
  · rw [Nat.div_lt_iff_lt_mul hpos]
    have hlt : (grid.1 : ℚ) / grid.2 < 10 ^ (k + 1) := by
      rw [hratio, div_lt_iff₀ hten, ← zpow_natCast, ← zpow_add₀ (by norm_num)]
      rw [show ((k + 1 : ℕ) : ℤ) + (leadingPower num den - k) = leadingPower num den + 1 by
        push_cast; ring]
      exact hhigh
    rw [div_lt_iff₀ hposQ] at hlt
    exact_mod_cast hlt

/-! ## Decimals of a fixed number of digits -/

namespace Scientific

/-- The number that a decimal of `count` digits stands for. -/
def value (decimal : Scientific) (count : Nat) : ℚ :=
  decimal.coefficient * 10 ^ (decimal.leading - (count - 1 : ℕ))

structure HasDigits (decimal : Scientific) (count : Nat) : Prop where
  coefficient_ge : 10 ^ (count - 1) ≤ decimal.coefficient
  coefficient_lt : decimal.coefficient < 10 ^ count

variable {decimal other : Scientific} {count : Nat}

theorem HasDigits.count_pos (hdigits : decimal.HasDigits count) : 0 < count := by
  rcases Nat.eq_zero_or_pos count with hzero | hpos
  · have hge := hdigits.coefficient_ge
    have hlt := hdigits.coefficient_lt
    subst hzero
    omega
  · exact hpos

theorem HasDigits.length_digits (hdigits : decimal.HasDigits count) :
    (digits decimal.coefficient).length = count := by
  have hpos := hdigits.count_pos
  have hle := length_digits_le hpos hdigits.coefficient_lt
  have hlt := lt_length_digits hdigits.coefficient_ge
  omega

theorem HasDigits.coefficient_pos (hdigits : decimal.HasDigits count) :
    0 < decimal.coefficient :=
  lt_of_lt_of_le (by positivity) hdigits.coefficient_ge

theorem HasDigits.between (hdigits : decimal.HasDigits count) :
    (10 : ℚ) ^ decimal.leading ≤ decimal.value count ∧
      decimal.value count < 10 ^ (decimal.leading + 1) := by
  obtain ⟨n, rfl⟩ : ∃ n, count = n + 1 := ⟨count - 1, by have := hdigits.count_pos; omega⟩
  have hge : (10 : ℚ) ^ n ≤ decimal.coefficient := by exact_mod_cast hdigits.coefficient_ge
  have hlt : (decimal.coefficient : ℚ) < 10 ^ (n + 1) := by exact_mod_cast hdigits.coefficient_lt
  have hten : (10 : ℚ) ≠ 0 := by norm_num
  have hscale : (0 : ℚ) < 10 ^ (decimal.leading - (n : ℤ)) := by positivity
  rw [value, Nat.add_sub_cancel]
  constructor
  · calc
      (10 : ℚ) ^ decimal.leading = 10 ^ n * 10 ^ (decimal.leading - (n : ℤ)) := by
        rw [← zpow_natCast, ← zpow_add₀ hten, add_sub_cancel]
      _ ≤ decimal.coefficient * 10 ^ (decimal.leading - (n : ℤ)) :=
        mul_le_mul_of_nonneg_right hge hscale.le
  · calc
      (decimal.coefficient * 10 ^ (decimal.leading - (n : ℤ)) : ℚ) <
          10 ^ (n + 1) * 10 ^ (decimal.leading - (n : ℤ)) :=
        mul_lt_mul_of_pos_right hlt hscale
      _ = 10 ^ (decimal.leading + 1) := by
        rw [← zpow_natCast, ← zpow_add₀ hten]
        congr 1
        push_cast
        ring

/-- A number has one decimal of a given number of digits at most. -/
theorem HasDigits.eq_of_value_eq (hdigits : decimal.HasDigits count)
    (hother : other.HasDigits count) (heq : decimal.value count = other.value count) :
    decimal = other := by
  obtain ⟨hge, hlt⟩ := hdigits.between
  obtain ⟨hge', hlt'⟩ := hother.between
  have hleading : decimal.leading = other.leading := by
    have hbelow := (zpow_lt_zpow_iff_right₀ (by norm_num)).mp (lt_of_le_of_lt hge (heq ▸ hlt'))
    have habove := (zpow_lt_zpow_iff_right₀ (by norm_num)).mp (lt_of_le_of_lt hge' (heq ▸ hlt))
    omega
  have hcoefficient : decimal.coefficient = other.coefficient := by
    have hstep : (10 : ℚ) ^ (other.leading - (count - 1 : ℕ)) ≠ 0 := by positivity
    rw [value, value, hleading] at heq
    exact_mod_cast mul_right_cancel₀ hstep heq
  obtain ⟨c, leading⟩ := decimal
  simp_all

end Scientific

end Decimal
end SyntaxDump

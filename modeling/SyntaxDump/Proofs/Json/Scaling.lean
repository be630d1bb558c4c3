import SyntaxDump.Proofs.Binary64.Error
import SyntaxDump.Proofs.Json.Number

/-!
# Scaling by a power of ten

A significand is taken to a double and multiplied or divided by a power of ten,
which is a double near the power, in one step or in two.  Every step rounds, and
the errors add up to a few units in the last place.  There is nothing to round
before the last step if the significand is a double and the power of ten is one.
-/

namespace SyntaxDump

namespace Binary64

theorem tenPow_lt_overflowBound {k : Nat} (hk : k ≤ 308) : 10 ^ k < overflowBound :=
  Decimal.overflowBound_gt (Nat.pow_le_pow_right (by omega) hk)

theorem unit_le_scaled_tenPow {k : Nat} (hk : k ≤ 308) : unit ≤ (tenPow k).scaled :=
  unit_le_scaled_ofNat (by positivity) (tenPow_lt_overflowBound hk)

theorem within_tenPow {k : Nat} (hk : k ≤ 308) :
    Within (1 / 2 ^ 53) 0 (tenPow k).size (10 ^ k) := by
  have hnear := within_ofNat (show 0 < 10 ^ k by positivity) (tenPow_lt_overflowBound hk)
  rwa [Nat.cast_pow] at hnear

end Binary64

namespace Json

open Binary64 (Within unit infinityWord overflowBound)

theorem word_divideByTenPow_lt {x : Binary64} (hx : x.word < infinityWord) (power : Nat) :
    (divideByTenPow x power).word < infinityWord := by
  fun_induction divideByTenPow x power with
  | case1 x power hsmall => exact Binary64.word_div_lt hx (Binary64.unit_le_scaled_tenPow hsmall)
  | case2 x power hlarge hzero => exact hx
  | case3 x power hlarge hzero ih =>
      exact ih (Binary64.word_div_lt hx (Binary64.unit_le_scaled_tenPow le_rfl))

/-- A quotient is rounded once more than its dividend. -/
theorem within_div_tenPow {x : Binary64} (hx : x.word < infinityWord) {ε η v : ℚ}
    (hnear : Within ε η x.size v) (hε : 0 ≤ ε) (hη : 0 ≤ η) (hv : 0 ≤ v) {k : Nat}
    (hk : k ≤ 308) :
    Within ((ε + 1 / 2 ^ 53) / (1 - 1 / 2 ^ 53) +
        (1 + (ε + 1 / 2 ^ 53) / (1 - 1 / 2 ^ 53)) / 2 ^ 53)
      (η / ((1 - 1 / 2 ^ 53) * 10 ^ k) + η / ((1 - 1 / 2 ^ 53) * 10 ^ k) / 2 ^ 53 + 1 / 2 / unit)
      (x.div (Binary64.tenPow k)).size (v / 10 ^ k) := by
  have hunit := Binary64.unit_le_scaled_tenPow hk
  have hquotient := hnear.div (Binary64.within_tenPow hk) hε hη (by norm_num) (by norm_num) hv
    (by positivity)
  refine hquotient.round ?_ (div_nonneg x.size_nonneg (Binary64.size_nonneg _))
  exact Binary64.approximates_div (lt_of_lt_of_le Binary64.unit_pos hunit)
    (Binary64.scaled_lt_mul hx hunit)

theorem isZero_ofNat {c : Nat} (hpos : 0 < c) (hc : c < overflowBound) :
    (Binary64.ofNat c).isZero = false := by
  have hunit := Binary64.unit_le_scaled_ofNat hpos hc
  rw [← Bool.not_eq_true]
  intro hzero
  have hword := Binary64.word_mod_eq (Binary64.ofNat c)
  have hnone : (Binary64.ofNat c).significand = 0 := by
    have hmod : (Binary64.ofNat c).word % 2 ^ 63 = 0 := by simpa [Binary64.isZero] using hzero
    omega
  rw [Binary64.scaled, hnone, zero_mul] at hunit
  exact absurd Binary64.unit_pos (Nat.not_lt.mpr hunit)

theorem within_divideByTenPow_once {c k : Nat} (hpos : 0 < c) (hc : c < overflowBound)
    (hk : k ≤ 308) :
    Within (301 / 100 / 2 ^ 53) (1 / 2 / unit)
      ((Binary64.ofNat c).div (Binary64.tenPow k)).size (c / 10 ^ k) := by
  have hnear := within_div_tenPow (Binary64.word_ofNat_lt hc) (Binary64.within_ofNat hpos hc)
    (by norm_num) le_rfl (by positivity) hk
  refine hnear.mono (by norm_num) ?_ (by positivity)
  rw [zero_div, zero_div, zero_add, zero_add]

/-- A significand divided by a power of ten in two steps at most; what the first
one is off by, the second one divides. -/
theorem within_divideByTenPow {c k : Nat} (hpos : 0 < c) (hc : c < overflowBound) (hk : k ≤ 616) :
    Within (51 / 10 / 2 ^ 53) (3 / 5 / unit) (divideByTenPow (Binary64.ofNat c) k).size
      (c / 10 ^ k) := by
  have hunit := Binary64.unit_posQ
  rcases Nat.lt_or_ge 308 k with htwice | honce
  · obtain ⟨j, rfl⟩ := Nat.exists_eq_add_of_lt htwice
    have hfirst := within_divideByTenPow_once hpos hc (k := 308) le_rfl
    have hword := Binary64.word_div_lt (Binary64.word_ofNat_lt hc)
      (Binary64.unit_le_scaled_tenPow (k := 308) le_rfl)
    have hhalf : (0 : ℚ) ≤ 1 / 2 / unit := div_nonneg (by norm_num) hunit.le
    have hsecond := within_div_tenPow hword hfirst (by norm_num) hhalf (by positivity)
      (k := j + 1) (by omega)
    have hpower : (c / 10 ^ (308 + j + 1) : ℚ) = c / 10 ^ 308 / 10 ^ (j + 1) := by
      rw [div_div, ← pow_add, add_assoc]
    have hsteps : divideByTenPow (Binary64.ofNat c) (308 + j + 1) =
        ((Binary64.ofNat c).div (Binary64.tenPow 308)).div (Binary64.tenPow (j + 1)) := by
      rw [divideByTenPow, if_neg (show ¬ 308 + j + 1 ≤ maxTenPow by rw [maxTenPow]; omega),
        isZero_ofNat hpos hc, if_neg Bool.false_ne_true, divideByTenPow,
        if_pos (show 308 + j + 1 - maxTenPow ≤ maxTenPow by rw [maxTenPow]; omega)]
      rw [show 308 + j + 1 - maxTenPow = j + 1 by rw [maxTenPow]; omega, maxTenPow]
    rw [hpower, hsteps]
    refine hsecond.mono (by norm_num) ?_ (by positivity)
    have hten : (9 : ℚ) ≤ (1 - 1 / 2 ^ 53) * 10 ^ (j + 1) := by
      have hone : (1 : ℚ) ≤ 10 ^ j := one_le_pow₀ (by norm_num)
      rw [pow_succ (10 : ℚ) j]
      linarith
    have hshare : (1 / 2 / unit / ((1 - 1 / 2 ^ 53) * 10 ^ (j + 1)) : ℚ) ≤ 1 / 2 / unit / 9 :=
      div_le_div_of_nonneg_left hhalf (by norm_num) hten
    have hlimit : (3 / 5 / unit : ℚ) = 6 / 5 * (1 / 2 / unit) := by ring
    rw [hlimit]
    linarith
  · rw [divideByTenPow, if_pos (show k ≤ maxTenPow from honce)]
    refine (within_divideByTenPow_once hpos hc honce).mono (by norm_num) ?_ (by positivity)
    exact div_le_div_of_nonneg_right (by norm_num) hunit.le

theorem within_mul_tenPow {c k : Nat} (hpos : 0 < c) (hc : c < overflowBound) (hk : k ≤ 308)
    (hfinite : ((Binary64.ofNat c).mul (Binary64.tenPow k)).isInfinite = false) :
    Within (51 / 10 / 2 ^ 53) (3 / 5 / unit) ((Binary64.ofNat c).mul (Binary64.tenPow k)).size
      (c * 10 ^ k) := by
  have hproduct := (Binary64.within_ofNat hpos hc).mul (Binary64.within_tenPow hk) (by norm_num)
    (by positivity) (by positivity)
  have hnear := hproduct.round (Binary64.approximates_mul hfinite)
    (mul_nonneg (Binary64.size_nonneg _) (Binary64.size_nonneg _))
  refine hnear.mono (by norm_num) ?_ (by positivity)
  rw [zero_div, zero_add, zero_add]
  exact div_le_div_of_nonneg_right (by norm_num) Binary64.unit_posQ.le

/-- Scaling a significand by a power of ten is off by a few units. -/
theorem within_scaleByTenPow? {c : Nat} {power : Int} {z : Binary64} (hpos : 0 < c)
    (hc : c < overflowBound) (hpower : -616 ≤ power)
    (hz : scaleByTenPow? (Binary64.ofNat c) power = some z) :
    z.word < infinityWord ∧
      Within (51 / 10 / 2 ^ 53) (3 / 5 / unit) z.size (c * 10 ^ power) := by
  cases power with
  | ofNat k =>
      rw [scaleByTenPow?] at hz
      dsimp only at hz
      split_ifs at hz with hsmall hinfinite hzero
      · obtain rfl := Option.some.inj hz
        have hfinite := Bool.eq_false_of_not_eq_true hinfinite
        refine ⟨Binary64.word_ofRatio_lt hfinite, ?_⟩
        rw [Int.ofNat_eq_natCast, zpow_natCast]
        exact within_mul_tenPow hpos hc hsmall hfinite
      · rw [isZero_ofNat hpos hc] at hzero
        exact absurd hzero Bool.false_ne_true
  | negSucc k =>
      obtain rfl := Option.some.inj hz
      refine ⟨word_divideByTenPow_lt (Binary64.word_ofNat_lt hc) _, ?_⟩
      rw [zpow_negSucc, ← div_eq_mul_inv]
      exact within_divideByTenPow hpos hc (by omega)

/-- Only the last step rounds if the significand is a double and the power of
ten is one. -/
theorem scaleByTenPow?_exact {c : Nat} {power : Int} {z : Binary64}
    (hexact : Binary64.Representable c) (hc : c < overflowBound) (hpower : power.natAbs ≤ 22)
    (hz : scaleByTenPow? (Binary64.ofNat c) power = some z) :
    ∃ num den : Nat, 0 < den ∧ (num / den : ℚ) = c * 10 ^ power ∧
      z = Binary64.ofRatio num den := by
  have hunit := Binary64.unit_posQ.ne'
  have hfirst := Binary64.scaled_ofNat hexact hc
  have hpowers : ∀ k ≤ 22, (Binary64.tenPow k).scaled = 10 ^ k * unit := fun k hk =>
    Binary64.scaled_ofNat (Binary64.representable_tenPow hk)
      (Binary64.tenPow_lt_overflowBound (by omega))
  cases power with
  | ofNat k =>
      have hk : k ≤ 22 := hpower
      rw [scaleByTenPow?, if_pos (show k ≤ maxTenPow by rw [maxTenPow]; omega)] at hz
      dsimp only at hz
      split_ifs at hz with hinfinite
      obtain rfl := Option.some.inj hz
      refine ⟨_, _, Nat.mul_pos Binary64.unit_pos Binary64.unit_pos, ?_, rfl⟩
      rw [hfirst, hpowers k hk, Int.ofNat_eq_natCast, zpow_natCast]
      push_cast
      rw [mul_mul_mul_comm, mul_div_cancel_right₀ _ (mul_ne_zero hunit hunit)]
  | negSucc k =>
      have hk : k + 1 ≤ 22 := hpower
      obtain rfl := Option.some.inj hz
      rw [divideByTenPow, if_pos (show k + 1 ≤ maxTenPow by rw [maxTenPow]; omega)]
      refine ⟨_, _, lt_of_lt_of_le Binary64.unit_pos (Binary64.unit_le_scaled_tenPow (by omega)),
        ?_, rfl⟩
      rw [hfirst, hpowers (k + 1) hk, zpow_negSucc]
      push_cast
      rw [mul_div_mul_right _ _ hunit, div_eq_mul_inv]

theorem ofRatio_zero (den : Nat) : Binary64.ofRatio 0 den = Binary64.zero := by
  simp [Binary64.ofRatio, Binary64.nearestEven, Binary64.zero]

theorem scaleByTenPow?_zero (power : Int) :
    scaleByTenPow? Binary64.zero power = some Binary64.zero := by
  have hscaled : Binary64.zero.scaled = 0 := by decide
  have hzero : Binary64.zero.isZero = true := by decide
  have hfinite : Binary64.zero.isInfinite = false := by decide
  cases power with
  | ofNat k =>
      simp [scaleByTenPow?, Binary64.mul, hscaled, ofRatio_zero, hzero, hfinite]
  | negSucc k =>
      rw [scaleByTenPow?, divideByTenPow]
      simp [Binary64.div, hscaled, ofRatio_zero, hzero]

end Json
end SyntaxDump

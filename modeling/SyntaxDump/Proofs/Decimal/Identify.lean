import SyntaxDump.Proofs.Binary64.Error
import SyntaxDump.Proofs.Decimal.Shortest

/-!
# The shortest decimal identifies its double

A number in the rounding interval of a double is taken to that double.  Below a
power of two the interval reaches into the next binade, where the number is
rounded in half the unit and carries back.  A grid of seventeen digits is finer
than every rounding interval, so the search for a decimal never fails.
-/

namespace SyntaxDump
namespace Decimal

open Binary64 (unit nearestEven)

/-! ## Rounding a number of the interval -/

theorem shiftOf_eq {num den s : Nat} (hden : 0 < den)
    (hlow : s ≠ 0 → 2 ^ 52 * 2 ^ s ≤ (num / den * unit : ℚ))
    (hhigh : (num / den * unit : ℚ) < 2 ^ 53 * 2 ^ s) : Binary64.shiftOf num den = s := by
  have hdenQ : (0 : ℚ) < den := by exact_mod_cast hden
  have hbelow : num * unit / den < 2 ^ (53 + s) := by
    rw [Nat.div_lt_iff_lt_mul hden, pow_add]
    rw [div_mul_eq_mul_div, div_lt_iff₀ hdenQ] at hhigh
    exact_mod_cast hhigh
  unfold Binary64.shiftOf
  generalize hquotient : num * unit / den = quotient at hbelow
  by_cases hzero : s = 0
  · subst hzero
    have hlog : quotient.log2 < 53 := by
      by_cases hnone : quotient = 0
      · rw [hnone]
        decide
      · exact (Nat.log2_lt hnone).mpr hbelow
    omega
  · have hreach : 2 ^ (52 + s) ≤ quotient := by
      have hlow := hlow hzero
      rw [div_mul_eq_mul_div, le_div_iff₀ hdenQ] at hlow
      rw [← hquotient, Nat.le_div_iff_mul_le hden, pow_add]
      exact_mod_cast hlow
    have hne : quotient ≠ 0 := (lt_of_lt_of_le (Nat.two_pow_pos _) hreach).ne'
    have hlog : quotient.log2 = 52 + s := by
      rw [Nat.log2_eq_iff hne]
      exact ⟨hreach, lt_of_lt_of_le hbelow (Nat.pow_le_pow_right (by omega) (by omega))⟩
    omega

/-- A ratio is taken to the word of a unit and a significand if the significand
is nearest to the ratio in that unit and has the right length. -/
theorem ofRatio_eq_ofWord {num den s m : Nat} (hden : 0 < den)
    (hround : RoundsTo (num / den * unit / 2 ^ s) m)
    (hlow : s ≠ 0 → 2 ^ 52 * 2 ^ s ≤ (num / den * unit : ℚ))
    (hhigh : (num / den * unit : ℚ) < 2 ^ 53 * 2 ^ s)
    (hfits : s * 2 ^ 52 + m ≤ Binary64.infinityWord) :
    Binary64.ofRatio num den = Binary64.ofWord (s * 2 ^ 52 + m) := by
  have hstep : 0 < den * 2 ^ s := Nat.mul_pos hden (Nat.two_pow_pos s)
  have hratio : ((num * unit : ℕ) : ℚ) / (den * 2 ^ s : ℕ) = num / den * unit / 2 ^ s := by
    push_cast
    rw [div_mul_eq_mul_div, div_div]
  have hnear := roundsTo_nearestEven (num * unit) hstep
  rw [hratio] at hnear
  rw [Binary64.ofRatio_eq, shiftOf_eq hden hlow hhigh, hround.unique hnear, min_eq_left hfits]

/-- How far the rounding interval reaches below a double, in its own unit: less
far if the double is a power of two with a smaller unit below it. -/
def lowerGap (x : Binary64) : ℚ :=
  if x.fractionField = 0 ∧ 1 < x.exponentField then 1 / 4 else 1 / 2

theorem roundingInterval_low_eq {x : Binary64} (hzero : x.isZero = false) :
    ((roundingInterval x).low : ℚ) = 4 * ((x.significand - lowerGap x) * 2 ^ x.scale) := by
  have hpos := Binary64.significand_pos hzero
  unfold lowerGap roundingInterval
  dsimp only
  split_ifs
  · rw [Nat.cast_mul, Nat.cast_sub (by omega)]
    push_cast
    ring
  · rw [Nat.cast_mul, Nat.cast_sub (by omega)]
    push_cast
    ring

theorem roundingInterval_high_eq (x : Binary64) :
    ((roundingInterval x).high : ℚ) = 4 * ((x.significand + 1 / 2) * 2 ^ x.scale) := by
  simp only [roundingInterval]
  push_cast
  ring

namespace Identifies

variable {x : Binary64} {v : ℚ}

theorem upper (hv : Identifies v x) :
    v * unit ≤ (x.significand + 1 / 2) * 2 ^ x.scale ∧
      (v * unit = (x.significand + 1 / 2) * 2 ^ x.scale → Even x.significand) := by
  unfold Identifies Interval.Holds at hv
  rw [roundingInterval_high_eq] at hv
  split_ifs at hv with hclosed
  · refine ⟨by linarith [hv.2], fun _ => ?_⟩
    simpa [roundingInterval, Nat.even_iff] using hclosed
  · exact ⟨by linarith [hv.2], fun heq => absurd heq (by linarith [hv.2] : _ < _).ne⟩

theorem lower (hzero : x.isZero = false) (hv : Identifies v x) :
    ((x.significand - lowerGap x) * 2 ^ x.scale ≤ v * unit) ∧
      (v * unit = (x.significand - lowerGap x) * 2 ^ x.scale → Even x.significand) := by
  unfold Identifies Interval.Holds at hv
  rw [roundingInterval_low_eq hzero] at hv
  split_ifs at hv with hclosed
  · refine ⟨by linarith [hv.1], fun _ => ?_⟩
    simpa [roundingInterval, Nat.even_iff] using hclosed
  · exact ⟨by linarith [hv.1], fun heq => absurd heq (by linarith [hv.1] : _ < _).ne'⟩

theorem roundsTo_significand (hv : Identifies v x)
    (hnear : (x.significand - 1 / 2) * 2 ^ x.scale ≤ v * unit)
    (htie : v * unit = (x.significand - 1 / 2) * 2 ^ x.scale → Even x.significand) :
    RoundsTo (v * unit / 2 ^ x.scale) x.significand := by
  obtain ⟨hupper, heven⟩ := hv.upper
  have hpow : (0 : ℚ) < 2 ^ x.scale := by positivity
  constructor
  · rw [abs_le]
    constructor
    · rw [neg_le_sub_iff_le_add, ← sub_le_iff_le_add, le_div_iff₀ hpow]
      exact hnear
    · rw [sub_le_iff_le_add', div_le_iff₀ hpow]
      exact hupper
  · intro heq
    rcases (abs_eq (by norm_num)).mp heq with habove | hbelow
    · rw [sub_eq_iff_eq_add', div_eq_iff hpow.ne'] at habove
      exact heven habove
    · rw [sub_eq_iff_eq_add', div_eq_iff hpow.ne', ← sub_eq_add_neg] at hbelow
      exact htie hbelow

end Identifies

theorem significand_eq_of_scale_ne_zero {x : Binary64} (hscale : x.scale ≠ 0) :
    1 < x.exponentField ∧ x.significand = 2 ^ 52 + x.fractionField := by
  unfold Binary64.scale at hscale
  refine ⟨by omega, ?_⟩
  rw [Binary64.significand, if_neg (by omega)]

theorem word_lt_infinityWord {x : Binary64} (hfinite : x.isFinite = true) :
    x.scale * 2 ^ 52 + x.significand < Binary64.infinityWord := by
  have hinfinity : Binary64.infinityWord = 2047 * 2 ^ 52 := rfl
  have hscale := Binary64.scale_le hfinite
  have hlt := Binary64.significand_lt x
  omega

/-- Just below a power of two, rounding carries into the next binade. -/
theorem ofRatio_eq_of_carry {num den t : Nat} (hden : 0 < den)
    (hlow : (2 ^ 53 - 1 / 2) * 2 ^ t ≤ (num / den * unit : ℚ))
    (hhigh : (num / den * unit : ℚ) < 2 ^ 53 * 2 ^ t)
    (hfits : t * 2 ^ 52 + 2 ^ 53 ≤ Binary64.infinityWord) :
    Binary64.ofRatio num den = Binary64.ofWord (t * 2 ^ 52 + 2 ^ 53) := by
  have hpow : (0 : ℚ) < 2 ^ t := by positivity
  have hnear : RoundsTo (num / den * unit / 2 ^ t) (2 ^ 53) := by
    constructor
    · have hbelow : (num / den * unit / 2 ^ t : ℚ) ≤ 2 ^ 53 := by
        rw [div_le_iff₀ hpow]
        exact hhigh.le
      have habove : (2 ^ 53 - 1 / 2 : ℚ) ≤ num / den * unit / 2 ^ t := by
        rw [le_div_iff₀ hpow]
        exact hlow
      rw [abs_le]
      push_cast
      constructor
      · linarith
      · linarith
    · intro _
      exact Nat.even_pow.mpr ⟨even_two, by omega⟩
  refine ofRatio_eq_ofWord hden hnear (fun _ => le_trans ?_ hlow) hhigh hfits
  exact mul_le_mul_of_nonneg_right (by norm_num) hpow.le

/-- A ratio in the rounding interval of a double is taken to that double. -/
theorem ofRatio_of_identifies {x : Binary64} (hfinite : x.isFinite = true)
    (hzero : x.isZero = false) {num den : Nat} (hden : 0 < den)
    (hv : Identifies (num / den) x) : Binary64.ofRatio num den = x.magnitude := by
  obtain ⟨hlower, htie⟩ := hv.lower hzero
  have hupper := hv.upper.1
  have hfits := word_lt_infinityWord hfinite
  have hpow : (0 : ℚ) < 2 ^ x.scale := by positivity
  have hlong : (x.significand : ℚ) + 1 ≤ 2 ^ 53 := by
    exact_mod_cast Binary64.significand_lt x
  have hhigh : (num / den * unit : ℚ) < 2 ^ 53 * 2 ^ x.scale := by
    refine lt_of_le_of_lt hupper (mul_lt_mul_of_pos_right ?_ hpow)
    linarith
  rw [Binary64.magnitude, Binary64.word_mod_eq]
  by_cases hbinade : x.fractionField = 0 ∧ 1 < x.exponentField
  · have hscale : x.scale ≠ 0 := by
      unfold Binary64.scale
      omega
    have hsignificand : x.significand = 2 ^ 52 := by
      rw [(significand_eq_of_scale_ne_zero hscale).2, hbinade.1, Nat.add_zero]
    rw [lowerGap, if_pos hbinade, hsignificand] at hlower
    rcases lt_or_ge (num / den * unit : ℚ) (2 ^ 52 * 2 ^ x.scale) with hcarry | hnormal
    · obtain ⟨t, ht⟩ : ∃ t, x.scale = t + 1 := Nat.exists_eq_succ_of_ne_zero hscale
      rw [ht, pow_succ _ t] at hlower hcarry
      rw [hsignificand, ht] at hfits ⊢
      have hwords : (t + 1) * 2 ^ 52 + 2 ^ 52 = t * 2 ^ 52 + 2 ^ 53 := by omega
      rw [hwords] at hfits ⊢
      refine ofRatio_eq_of_carry hden (le_of_eq_of_le ?_ hlower) (hcarry.trans_eq ?_) hfits.le
      · push_cast
        ring
      · ring
    · refine ofRatio_eq_ofWord hden (hv.roundsTo_significand ?_ ?_) (fun _ => hnormal) hhigh
        hfits.le
      · rw [hsignificand]
        refine le_trans (mul_le_mul_of_nonneg_right ?_ hpow.le) hnormal
        norm_num
      · intro _
        rw [hsignificand]
        exact Nat.even_pow.mpr ⟨even_two, by omega⟩
  · rw [lowerGap, if_neg hbinade] at hlower htie
    refine ofRatio_eq_ofWord hden (hv.roundsTo_significand hlower htie) ?_ hhigh hfits.le
    intro hscale
    obtain ⟨hexponent, hsignificand⟩ := significand_eq_of_scale_ne_zero hscale
    have hlarge : (2 ^ 52 + 1 : ℚ) ≤ x.significand := by
      have hfraction : x.fractionField ≠ 0 := fun hnone => hbinade ⟨hnone, hexponent⟩
      exact_mod_cast (by omega : 2 ^ 52 + 1 ≤ x.significand)
    refine le_trans (mul_le_mul_of_nonneg_right ?_ hpow.le) hlower
    linarith

/-! ## Seventeen digits suffice -/

theorem exists_gridHit?_of_onGrid {x : Binary64} {power : Int} {k : Nat}
    (hk : onGrid x power k = true)
    (hneighbour : k = (overTenPow x.scaled unit power).1 / (overTenPow x.scaled unit power).2 ∨
      k = (overTenPow x.scaled unit power).1 / (overTenPow x.scaled unit power).2 + 1) :
    ∃ hit, gridHit? x power = some hit := by
  unfold gridHit?
  dsimp only
  split
  · exact ⟨_, rfl⟩
  · exact ⟨_, rfl⟩
  · exact ⟨_, rfl⟩
  · rename_i hbelow habove
    rcases hneighbour with rfl | rfl
    · exact absurd (hk.symm.trans hbelow) (by decide)
    · exact absurd (hk.symm.trans habove) (by decide)

/-- A grid with a step less than the rounding interval has a point in it. -/
theorem exists_gridHit?_of_step_lt {x : Binary64} (hzero : x.isZero = false) {power : Int}
    (hstep : 4 * (10 ^ power * unit : ℚ) <
      (roundingInterval x).high - (roundingInterval x).low) :
    ∃ hit, gridHit? x power = some hit := by
  obtain ⟨below, hbelow⟩ : ∃ k, (overTenPow x.scaled unit power).1 /
    (overTenPow x.scaled unit power).2 = k := ⟨_, rfl⟩
  have hpos : 0 < (overTenPow x.scaled unit power).2 := overTenPow_pos Binary64.unit_pos power
  have hposQ : (0 : ℚ) < (overTenPow x.scaled unit power).2 := by exact_mod_cast hpos
  have hgrid : (0 : ℚ) < 10 ^ power * unit := mul_pos (by positivity) Binary64.unit_posQ
  have hratio := overTenPow_ratio x.scaled Binary64.unit_pos power
  rw [div_div, mul_comm (unit : ℚ)] at hratio
  have hunder : below * (10 ^ power * unit) ≤ (x.scaled : ℚ) := by
    rw [← le_div_iff₀ hgrid, ← hratio, le_div_iff₀ hposQ, ← hbelow]
    exact_mod_cast Nat.div_mul_le_self _ _
  have hover : (x.scaled : ℚ) < (below + 1) * (10 ^ power * unit) := by
    rw [← div_lt_iff₀ hgrid, ← hratio, div_lt_iff₀ hposQ, ← hbelow]
    rw [add_mul, one_mul]
    exact_mod_cast Nat.lt_div_mul_add hpos
  have hlow : ((roundingInterval x).low : ℚ) < 4 * x.scaled := by
    have hgap := roundingInterval_low_le (Binary64.scaled_pos hzero)
    have hpow := Nat.two_pow_pos x.scale
    exact_mod_cast (by omega : (roundingInterval x).low < 4 * x.scaled)
  have hhigh : (4 * x.scaled : ℚ) < (roundingInterval x).high := by
    have hgap := roundingInterval_high x
    have hpow := Nat.two_pow_pos x.scale
    exact_mod_cast (by omega : 4 * x.scaled < (roundingInterval x).high)
  -- if the lower neighbour lies below the interval, the upper one cannot lie above it
  by_cases hbelowLow : ((roundingInterval x).low : ℚ) < 4 * (below * 10 ^ power * unit)
  · apply exists_gridHit?_of_onGrid (k := below) _ (.inl hbelow.symm)
    rw [onGrid_iff]
    exact Interval.holds_of_lt hbelowLow (by linarith)
  · apply exists_gridHit?_of_onGrid (k := below + 1) _ (.inr (by rw [hbelow]))
    rw [onGrid_iff]
    push_cast
    exact Interval.holds_of_lt (by linarith) (by linarith)

/-- The step of a grid of seventeen digits is less than the rounding interval
of a double, and even less than the narrow one of a power of two. -/
theorem seventeen_digits_step_lt {x : Binary64} (hzero : x.isZero = false) :
    4 * (10 ^ (leadingPower x.scaled unit - 16) * unit : ℚ) <
      (roundingInterval x).high - (roundingInterval x).low := by
  have hunit := Binary64.unit_posQ
  have hpow : (0 : ℚ) < 2 ^ x.scale := by positivity
  have hleading := (leadingPower_bounds (Binary64.scaled_pos hzero) Binary64.unit_pos).1
  have hstep : (10 ^ (leadingPower x.scaled unit - 16) * unit : ℚ) ≤
      x.significand / 10 ^ 16 * 2 ^ x.scale := by
    rw [le_div_iff₀ hunit] at hleading
    rw [zpow_sub₀ (by norm_num), div_mul_eq_mul_div, div_mul_eq_mul_div,
      zpow_ofNat, div_le_div_iff_of_pos_right (by positivity)]
    refine hleading.trans_eq ?_
    rw [Binary64.scaled]
    push_cast
    rfl
  have hwidth : ((roundingInterval x).high : ℚ) - (roundingInterval x).low =
      4 * ((1 / 2 + lowerGap x) * 2 ^ x.scale) := by
    rw [roundingInterval_high_eq, roundingInterval_low_eq hzero]
    ring
  have hfine : (x.significand / 10 ^ 16 : ℚ) < 1 / 2 + lowerGap x := by
    have hlong : (x.significand : ℚ) < 2 ^ 53 := by exact_mod_cast Binary64.significand_lt x
    unfold lowerGap
    split_ifs with hbinade
    · have hscale : x.scale ≠ 0 := by
        unfold Binary64.scale
        omega
      rw [(significand_eq_of_scale_ne_zero hscale).2, hbinade.1]
      norm_num
    · rw [div_lt_iff₀ (by norm_num)]
      linarith
  rw [hwidth]
  refine mul_lt_mul_of_pos_left (lt_of_le_of_lt hstep ?_) (by norm_num)
  exact mul_lt_mul_of_pos_right hfine hpow

/-- The decimal written for a double identifies it. -/
theorem identifies_shortest {x : Binary64} (hzero : x.isZero = false) :
    ∃ count, (shortest x).HasDigits count ∧ Identifies ((shortest x).value count) x := by
  obtain ⟨k, hfound⟩ := exists_gridHit?_of_step_lt hzero (seventeen_digits_step_lt hzero)
  rcases shortest_cases hzero with ⟨-, hmiss⟩ | ⟨count, k, power, hhit, hmade⟩
  · rw [hfound] at hmiss
    exact absurd hmiss (Option.some_ne_none k)
  · refine ⟨count, hmade.hasDigits, ?_⟩
    rw [← hmade.value, ← onGrid_iff]
    exact (gridHit?_eq_some hhit).1

end Decimal
end SyntaxDump

import SyntaxDump.Proofs.Decimal.Scientific

/-!
# The nearest decimal

A ratio is rounded on the grid of its own first digit.  The decimal found there
is the nearest one with its number of digits, whatever the power of the first
digit: decimals of greater powers lie on the same grid, and those of smaller
powers lie below the power of ten at which the grid starts.  A coefficient that
grows by a digit is a power of ten, and rounding once more on the coarser grid
of the decimal gives the same decimal.
-/

namespace SyntaxDump
namespace Decimal

open Binary64 (nearestEven)

/-! ## The nearest whole number -/

/-- A whole number nearest to a ratio; of two of them the even one. -/
structure RoundsTo (ratio : ℚ) (k : ℕ) : Prop where
  half : |ratio - k| ≤ 1 / 2
  even : |ratio - k| = 1 / 2 → Even k

namespace RoundsTo

variable {ratio : ℚ} {j k : ℕ}

theorem gap_le (ratio : ℚ) (j k : ℕ) : |(j : ℚ) - k| ≤ |ratio - j| + |ratio - k| := by
  rw [abs_sub_comm ratio]
  exact abs_sub_le (j : ℚ) ratio k

theorem distance_ge (hround : RoundsTo ratio k) (hne : j ≠ k) : 1 / 2 ≤ |ratio - j| := by
  have hapart : (1 : ℚ) ≤ |(j : ℚ) - k| := by
    exact_mod_cast Int.one_le_abs (show (j : ℤ) - k ≠ 0 by omega)
  have hgap := gap_le ratio j k
  have hhalf := hround.half
  linarith

theorem le (hround : RoundsTo ratio k) (j : ℕ) : |ratio - k| ≤ |ratio - j| := by
  by_cases heq : j = k
  · rw [heq]
  · exact hround.half.trans (hround.distance_ge heq)

/-- Two whole numbers equally near are neighbours, so one of them is odd. -/
theorem parity (hround : RoundsTo ratio k) (hne : j ≠ k) (heq : |ratio - k| = |ratio - j|) :
    Even k ∧ ¬ Even j := by
  have hhalf : |ratio - k| = 1 / 2 :=
    le_antisymm hround.half (heq ▸ hround.distance_ge hne)
  have hjhalf : |ratio - j| = 1 / 2 := by rw [← heq, hhalf]
  have hnear : |(j : ℚ) - k| ≤ 1 := by
    have hgap := gap_le ratio j k
    linarith
  have hneighbours : |(j : ℤ) - k| ≤ 1 := by exact_mod_cast hnear
  obtain ⟨hlow, hhigh⟩ := abs_le.mp hneighbours
  have hk := hround.even hhalf
  refine ⟨hk, ?_⟩
  rw [Nat.even_iff] at hk ⊢
  omega

theorem unique (hround : RoundsTo ratio k) (hother : RoundsTo ratio j) : j = k := by
  by_contra hne
  have heq := le_antisymm (hround.le j) (hother.le k)
  exact (hround.parity hne heq).2 (hother.parity (Ne.symm hne) heq.symm).1

theorem of_lt (hlt : |ratio - k| < 1 / 2) : RoundsTo ratio k :=
  ⟨hlt.le, fun heq => absurd heq hlt.ne⟩

theorem down {rest : ℚ} (hnonneg : 0 ≤ rest) (hlt : rest < 1 / 2) : RoundsTo (k + rest) k := by
  apply of_lt
  rwa [add_sub_cancel_left, abs_of_nonneg hnonneg]

theorem up {rest : ℚ} (hgt : 1 / 2 < rest) (hlt : rest < 1) : RoundsTo (k + rest) (k + 1) := by
  apply of_lt
  rw [Nat.cast_add_one, add_sub_add_left_eq_sub, abs_sub_comm, abs_of_pos (by linarith)]
  linarith

theorem tie (k : ℕ) : RoundsTo (k + 1 / 2) (k + k % 2) := by
  constructor
  · rw [Nat.cast_add, add_sub_add_left_eq_sub]
    rcases Nat.mod_two_eq_zero_or_one k with heven | hodd
    · rw [heven]
      norm_num
    · rw [hodd]
      norm_num
  · intro _
    rw [Nat.even_iff]
    omega

end RoundsTo

theorem roundsTo_nearestEven (num : ℕ) {den : ℕ} (hden : 0 < den) :
    RoundsTo (num / den) (nearestEven num den) := by
  have hdenQ : (0 : ℚ) < den := by exact_mod_cast hden
  obtain ⟨rest, hrest⟩ : ∃ r, num % den = r := ⟨_, rfl⟩
  have hsplit : (num / den : ℚ) = (num / den : ℕ) + rest / den := by
    rw [← hrest, eq_comm, ← mul_left_inj' hdenQ.ne', add_mul, div_mul_cancel₀ _ hdenQ.ne',
      div_mul_cancel₀ _ hdenQ.ne']
    exact_mod_cast Nat.div_add_mod' num den
  unfold nearestEven
  dsimp only
  rw [hsplit, hrest]
  rcases lt_trichotomy (2 * rest) den with hbelow | hequal | habove
  · rw [if_pos hbelow]
    apply RoundsTo.down (by positivity)
    rw [div_lt_div_iff₀ hdenQ (by norm_num)]
    exact_mod_cast (by omega : rest * 2 < 1 * den)
  · rw [if_neg hequal.not_lt, if_neg hequal.not_gt]
    have hhalf : (rest / den : ℚ) = 1 / 2 := by
      rw [div_eq_div_iff hdenQ.ne' (by norm_num)]
      exact_mod_cast (by omega : rest * 2 = 1 * den)
    rw [hhalf]
    exact RoundsTo.tie _
  · rw [if_neg habove.le.not_gt, if_pos habove]
    apply RoundsTo.up
    · rw [div_lt_div_iff₀ (by norm_num) hdenQ]
      exact_mod_cast (by omega : 1 * den < rest * 2)
    · rw [div_lt_one hdenQ, ← hrest]
      exact_mod_cast Nat.mod_lt num hden

/-! ## Decimals on a grid -/

/-- The decimals from a power of the first digit on are multiples of one unit. -/
theorem Scientific.value_on_grid (decimal : Scientific) (count : Nat) {leading : Int}
    (hle : leading ≤ decimal.leading) :
    ∃ j : ℕ, decimal.value count = j * 10 ^ (leading - (count - 1 : ℕ)) ∧
      (Even decimal.coefficient → Even j) := by
  obtain ⟨gap, hgap⟩ := Int.le.dest hle
  refine ⟨decimal.coefficient * 10 ^ gap, ?_, fun heven => heven.mul_right _⟩
  rw [value, ← hgap, show leading + (gap : ℤ) - (count - 1 : ℕ) =
    (gap : ℤ) + (leading - (count - 1 : ℕ)) by ring, zpow_add₀ (by norm_num), zpow_natCast]
  push_cast
  ring

/-- The nearest decimal with `count` digits; if another one is as near, the
coefficient is even. -/
structure IsNearest (count : Nat) (magnitude : ℚ) (decimal : Scientific) : Prop where
  hasDigits : decimal.HasDigits count
  nearest : ∀ other : Scientific, other.HasDigits count →
    |magnitude - decimal.value count| ≤ |magnitude - other.value count|
  even : ∀ other : Scientific, other.HasDigits count → other ≠ decimal →
    |magnitude - decimal.value count| = |magnitude - other.value count| →
      Even decimal.coefficient

/-- A decimal found by rounding a magnitude on the grid of its first digit. -/
structure FromGrid (count : Nat) (magnitude : ℚ) (leading : Int) (k : ℕ)
    (decimal : Scientific) : Prop where
  start : 10 ^ leading ≤ magnitude
  round : RoundsTo (magnitude / 10 ^ (leading - (count - 1 : ℕ))) k
  hasDigits : decimal.HasDigits count
  value_eq : decimal.value count = k * 10 ^ (leading - (count - 1 : ℕ))
  even : Even k → Even decimal.coefficient

theorem distance_eq (magnitude : ℚ) {step : ℚ} (hstep : 0 < step) (j : ℕ) :
    |magnitude - j * step| = |magnitude / step - j| * step := by
  have hfactor : magnitude - j * step = (magnitude / step - j) * step := by
    rw [sub_mul, div_mul_cancel₀ _ hstep.ne']
  rw [hfactor, abs_mul, abs_of_pos hstep]

namespace FromGrid

variable {count k : ℕ} {magnitude : ℚ} {leading : Int} {decimal other : Scientific}

theorem distance_le (hgrid : FromGrid count magnitude leading k decimal) (j : ℕ) :
    |magnitude - decimal.value count| ≤
      |magnitude - j * 10 ^ (leading - (count - 1 : ℕ))| := by
  have hstep : (0 : ℚ) < 10 ^ (leading - (count - 1 : ℕ)) := by positivity
  rw [hgrid.value_eq, distance_eq magnitude hstep, distance_eq magnitude hstep]
  exact mul_le_mul_of_nonneg_right (hgrid.round.le j) hstep.le

/-- Another decimal is farther away or a multiple of the same unit. -/
theorem farther_or_multiple (hgrid : FromGrid count magnitude leading k decimal)
    (hother : other.HasDigits count) :
    |magnitude - decimal.value count| < |magnitude - other.value count| ∨
      ∃ j : ℕ, other.value count = j * 10 ^ (leading - (count - 1 : ℕ)) ∧
        (Even other.coefficient → Even j) := by
  by_cases hle : leading ≤ other.leading
  · exact .inr (other.value_on_grid count hle)
  · -- the power of ten where the grid starts is nearer, and it is on the grid
    left
    have hbelow : other.value count < 10 ^ leading := by
      refine lt_of_lt_of_le hother.between.2 ?_
      exact zpow_le_zpow_right₀ (by norm_num) (by omega)
    have hpower : (10 : ℚ) ^ leading =
        (10 ^ (count - 1) : ℕ) * 10 ^ (leading - (count - 1 : ℕ)) := by
      push_cast
      rw [← zpow_natCast, ← zpow_add₀ (by norm_num), add_sub_cancel]
    have hnear := hgrid.distance_le (10 ^ (count - 1))
    rw [← hpower, abs_of_nonneg (sub_nonneg.mpr hgrid.start)] at hnear
    have hfar := le_abs_self (magnitude - other.value count)
    linarith

/-- Another multiple of the unit that is as near is not even. -/
theorem odd_of_tie (hgrid : FromGrid count magnitude leading k decimal)
    (hother : other.HasDigits count) (hne : other ≠ decimal) {j : ℕ}
    (hvalue : other.value count = j * 10 ^ (leading - (count - 1 : ℕ)))
    (heq : |magnitude - decimal.value count| = |magnitude - other.value count|) :
    Even k ∧ ¬ Even j := by
  have hstep : (0 : ℚ) < 10 ^ (leading - (count - 1 : ℕ)) := by positivity
  rw [hgrid.value_eq, hvalue, distance_eq magnitude hstep, distance_eq magnitude hstep] at heq
  apply hgrid.round.parity
  · rintro rfl
    apply hne
    exact hother.eq_of_value_eq hgrid.hasDigits (hvalue.trans hgrid.value_eq.symm)
  · exact mul_right_cancel₀ hstep.ne' heq

theorem isNearest (hgrid : FromGrid count magnitude leading k decimal) :
    IsNearest count magnitude decimal where
  hasDigits := hgrid.hasDigits
  nearest other hother := by
    rcases hgrid.farther_or_multiple hother with hlt | ⟨j, hvalue, -⟩
    · exact hlt.le
    · rw [hvalue]
      exact hgrid.distance_le j
  even other hother hne heq := by
    rcases hgrid.farther_or_multiple hother with hlt | ⟨j, hvalue, -⟩
    · exact absurd heq hlt.ne
    · apply hgrid.even
      exact (hgrid.odd_of_tie hother hne hvalue heq).1

theorem unique (hgrid : FromGrid count magnitude leading k decimal)
    (hnearest : IsNearest count magnitude other) : other = decimal := by
  by_contra hne
  have heq : |magnitude - decimal.value count| = |magnitude - other.value count| :=
    le_antisymm (hgrid.isNearest.nearest other hnearest.hasDigits)
      (hnearest.nearest decimal hgrid.hasDigits)
  rcases hgrid.farther_or_multiple hnearest.hasDigits with hlt | ⟨j, hvalue, heven⟩
  · exact absurd heq hlt.ne
  · have hodd := (hgrid.odd_of_tie hnearest.hasDigits hne hvalue heq).2
    exact hodd (heven (hnearest.even decimal hgrid.hasDigits (Ne.symm hne) heq.symm))

end FromGrid

/-! ## The decimal that is computed -/

section Computed

variable {num den : Nat} (hnum : 0 < num) (hden : 0 < den) {count : Nat}

include hnum hden

/-- The coefficient on the grid of the first digit, before a carry. -/
theorem nearest_cases (hcount : 0 < count) :
    ∃ k : ℕ, RoundsTo (num / den / 10 ^ (leadingPower num den - (count - 1 : ℕ))) k ∧
      10 ^ (count - 1) ≤ k ∧
      (k < 10 ^ count ∧ nearest count num den = ⟨k, leadingPower num den⟩ ∨
        k = 10 ^ count ∧
          nearest count num den = ⟨10 ^ (count - 1), leadingPower num den + 1⟩) := by
  obtain ⟨grid, hgrid⟩ :
      ∃ g, overTenPow num den (leadingPower num den - (Int.ofNat count - 1)) = g := ⟨_, rfl⟩
  have hpos : 0 < grid.2 := hgrid ▸ overTenPow_pos hden _
  have hratio := overTenPow_ratio num hden (leadingPower num den - (Int.ofNat count - 1))
  obtain ⟨hlow, hhigh⟩ := below_bounds hnum hden hcount
  rw [hgrid] at hratio hlow hhigh
  have hcast : (Int.ofNat count - 1) = ((count - 1 : ℕ) : ℤ) := by
    rw [Nat.cast_sub hcount]
    rfl
  have hround := roundsTo_nearestEven grid.1 hpos
  rw [hratio, hcast] at hround
  have hge : 10 ^ (count - 1) ≤ nearestEven grid.1 grid.2 :=
    Binary64.le_nearestEven hpos ((Nat.le_div_iff_mul_le hpos).mp hlow)
  have hle : nearestEven grid.1 grid.2 ≤ 10 ^ count :=
    Binary64.nearestEven_le hpos ((Nat.div_lt_iff_lt_mul hpos).mp hhigh).le
  refine ⟨nearestEven grid.1 grid.2, hround, hge, ?_⟩
  unfold nearest natPow
  dsimp only
  rw [hgrid]
  rcases hle.lt_or_eq with hlt | heq
  · exact .inl ⟨hlt, if_pos hlt⟩
  · refine .inr ⟨heq, ?_⟩
    rw [if_neg (by omega), heq]
    obtain ⟨n, rfl⟩ : ∃ n, count = n + 1 := ⟨count - 1, by omega⟩
    rw [pow_succ, Nat.mul_div_cancel _ (by omega), Nat.add_sub_cancel]

theorem fromGrid_nearest (hcount : 1 < count) :
    ∃ k, FromGrid count (num / den) (leadingPower num den) k (nearest count num den) := by
  obtain ⟨k, hround, hge, hcases⟩ := nearest_cases hnum hden (show 0 < count by omega)
  have hstart := (leadingPower_bounds hnum hden).1
  obtain ⟨n, rfl⟩ : ∃ n, count = n + 2 := ⟨count - 2, by omega⟩
  refine ⟨k, ?_⟩
  rcases hcases with ⟨hlt, hnearest⟩ | ⟨heq, hnearest⟩
  · rw [hnearest]
    exact ⟨hstart, hround, ⟨hge, hlt⟩, rfl, id⟩
  · rw [hnearest]
    refine ⟨hstart, hround, ⟨le_rfl, ?_⟩, ?_, ?_⟩
    · exact Nat.pow_lt_pow_right (by omega) (by omega)
    · rw [Scientific.value, heq, add_sub_right_comm, zpow_add_one₀ (by norm_num)]
      push_cast
      ring
    · intro _
      exact (Nat.even_pow.mpr ⟨by decide, by omega⟩ : Even (10 ^ (n + 2 - 1)))

/-- Rounding on the grid of the decimal itself gives its coefficient, also if
the first digit has moved. -/
theorem roundsTo_nearest (hcount : 0 < count) :
    RoundsTo (num / den / 10 ^ ((nearest count num den).leading - (count - 1 : ℕ)))
      (nearest count num den).coefficient := by
  obtain ⟨k, hround, -, ⟨-, hnearest⟩ | ⟨heq, hnearest⟩⟩ := nearest_cases hnum hden hcount
  · rw [hnearest]
    exact hround
  · rw [hnearest]
    dsimp only
    obtain ⟨n, rfl⟩ : ∃ n, count = n + 1 := ⟨count - 1, by omega⟩
    obtain ⟨ratio, hratio⟩ :
        ∃ r : ℚ, (num / den : ℚ) / 10 ^ (leadingPower num den - (n + 1 - 1 : ℕ)) = r := ⟨_, rfl⟩
    have hten : (num / den : ℚ) / 10 ^ (leadingPower num den + 1 - (n + 1 - 1 : ℕ)) =
        ratio / 10 := by
      rw [← hratio, add_sub_right_comm, zpow_add_one₀ (by norm_num), ← div_div]
    have hpower : (k : ℚ) = 10 ^ n * 10 := by
      rw [heq, pow_succ]
      push_cast
      rfl
    have hhalf := hround.half
    rw [hratio, hpower] at hhalf
    rw [hten, Nat.add_sub_cancel]
    apply RoundsTo.of_lt
    push_cast
    rw [show ratio / 10 - 10 ^ n = (ratio - 10 ^ n * 10) / 10 by ring, abs_div]
    rw [abs_of_pos (show (0 : ℚ) < 10 by norm_num), div_lt_iff₀ (by norm_num)]
    linarith

/-- The second rounding of a ratio, to `places` decimal places, agrees with the
first one if they have the same last digit. -/
theorem nearestEven_places (hcount : 0 < count) {places : ℕ}
    (hplaces : (nearest count num den).leading + places = (count - 1 : ℕ)) :
    nearestEven (num * 10 ^ places) den = (nearest count num den).coefficient := by
  have hround := roundsTo_nearestEven (num * 10 ^ places) hden
  have hfirst := roundsTo_nearest hnum hden hcount
  have hpower : (nearest count num den).leading - ((count - 1 : ℕ) : ℤ) = -(places : ℤ) := by
    omega
  rw [hpower, zpow_neg, zpow_natCast, div_inv_eq_mul] at hfirst
  push_cast at hround
  rw [mul_div_right_comm] at hround
  exact hfirst.unique hround

end Computed

end Decimal
end SyntaxDump

import SyntaxDump.Proofs.Decimal.Scientific

/-!
# The decimal written for a double

The shortest decimal of a double is a multiple of a power of ten inside the
rounding interval of the double.  Three facts about it matter to a reader that
multiplies the coefficient by a power of ten in double precision: the
coefficient has at most seventeen digits, the power of its first digit stays
within three decimal places, and the product never overflows.  The last one is
tight.  The decimal one unit above the one written for the largest double lies
in its rounding interval too, and a reader would take it to infinity.
-/

namespace SyntaxDump
namespace Decimal

open Binary64 (unit nearestEven)

/-! ## Rounding intervals -/

/-- Does a number of quarters of the least unit lie in the interval? -/
def Interval.Holds (interval : Interval) (quarters : ℚ) : Prop :=
  if interval.closed then interval.low ≤ quarters ∧ quarters ≤ interval.high
  else interval.low < quarters ∧ quarters < interval.high

theorem Interval.contains_iff (interval : Interval) (num : Nat) {den : Nat} (hden : 0 < den) :
    interval.contains num den = true ↔ interval.Holds (4 * (num / den)) := by
  have hdenQ : (0 : ℚ) < den := by exact_mod_cast hden
  unfold Interval.contains Interval.Holds
  dsimp only
  rw [← mul_div_assoc]
  split_ifs
  · rw [Bool.and_eq_true, decide_eq_true_eq, decide_eq_true_eq, le_div_iff₀ hdenQ,
      div_le_iff₀ hdenQ]
    norm_cast
  · rw [Bool.and_eq_true, decide_eq_true_eq, decide_eq_true_eq, lt_div_iff₀ hdenQ,
      div_lt_iff₀ hdenQ]
    norm_cast

theorem Interval.Holds.bounds {interval : Interval} {quarters : ℚ}
    (hin : interval.Holds quarters) : interval.low ≤ quarters ∧ quarters ≤ interval.high := by
  unfold Interval.Holds at hin
  split_ifs at hin
  · exact hin
  · exact ⟨hin.1.le, hin.2.le⟩

theorem Interval.holds_of_lt {interval : Interval} {quarters : ℚ}
    (hlow : interval.low < quarters) (hhigh : quarters < interval.high) :
    interval.Holds quarters := by
  unfold Interval.Holds
  split_ifs
  · exact ⟨hlow.le, hhigh.le⟩
  · exact ⟨hlow, hhigh⟩

theorem Interval.contains_of_bounds {interval : Interval} {num den : Nat}
    (hlow : interval.low * den < 4 * num) (hhigh : 4 * num < interval.high * den) :
    interval.contains num den = true := by
  unfold Interval.contains
  dsimp only
  split_ifs <;> simp only [Bool.and_eq_true, decide_eq_true_eq] <;> omega

theorem roundingInterval_low_pos {x : Binary64} (hx : x.isZero = false) :
    2 ≤ (roundingInterval x).low := by
  have hsignificand := Binary64.significand_pos hx
  have hpow := Nat.two_pow_pos x.scale
  unfold roundingInterval
  dsimp only
  split_ifs
  · calc
      2 ≤ 3 * 1 := by omega
      _ ≤ (4 * x.significand - 1) * 2 ^ x.scale := Nat.mul_le_mul (by omega) hpow
  · calc
      2 = 2 * 1 := rfl
      _ ≤ (4 * x.significand - 2) * 2 ^ x.scale := Nat.mul_le_mul (by omega) hpow

theorem roundingInterval_low_le {x : Binary64} (hx : 0 < x.scaled) :
    (roundingInterval x).low + 2 ^ x.scale ≤ 4 * x.scaled := by
  have hpos : 0 < x.significand := Nat.pos_of_mul_pos_right hx
  have hstep : (4 * x.significand - 1) * 2 ^ x.scale + 2 ^ x.scale = 4 * x.scaled := by
    rw [← Nat.succ_mul, show (4 * x.significand - 1).succ = 4 * x.significand by omega,
      Binary64.scaled, mul_assoc]
  have hle : (4 * x.significand - 2) * 2 ^ x.scale ≤ (4 * x.significand - 1) * 2 ^ x.scale :=
    Nat.mul_le_mul_right _ (by omega)
  unfold roundingInterval natPow
  dsimp only
  split_ifs <;> omega

theorem roundingInterval_high (x : Binary64) :
    (roundingInterval x).high = 4 * x.scaled + 2 * 2 ^ x.scale := by
  simp only [roundingInterval, Binary64.scaled]
  ring

theorem roundingInterval_high_le {x : Binary64} (hx : x.isFinite = true) :
    (roundingInterval x).high ≤ 4 * Binary64.overflowBound * unit := by
  have hscaled := Binary64.scaled_le_maxScaled hx
  have hpow : 2 ^ x.scale ≤ 2 ^ 2045 := Nat.pow_le_pow_right (by omega) (Binary64.scale_le hx)
  have hmax : 4 * Binary64.maxScaled + 2 * 2 ^ 2045 = 4 * Binary64.overflowBound * unit := by
    decide +kernel
  rw [roundingInterval_high]
  omega

/-! ## Grid points in the interval -/

def onGrid (x : Binary64) (power : Int) (k : Nat) : Bool :=
  match power with
  | .ofNat p => (roundingInterval x).contains (k * 10 ^ p * unit) 1
  | .negSucc p => (roundingInterval x).contains (k * unit) (10 ^ (p + 1))

/-- What a successful search on a grid has found: one of the two neighbours of
`x`, and the upper one only if it is the nearer one or the lower one does not
round to `x`. -/
theorem gridHit?_eq_some {x : Binary64} {power : Int} {k : Nat}
    (hhit : gridHit? x power = some k) :
    let grid := overTenPow x.scaled unit power
    onGrid x power k = true ∧
      (k = grid.1 / grid.2 ∨
        k = grid.1 / grid.2 + 1 ∧
          (onGrid x power (grid.1 / grid.2) = false ∨ k = nearestEven grid.1 grid.2)) := by
  intro grid
  unfold gridHit? at hhit
  dsimp only at hhit
  split at hhit
  all_goals
    rename_i hbelow habove
    simp only [Option.some.injEq, reduceCtorEq] at hhit
  · subst hhit
    rcases Binary64.nearestEven_cases grid.1 grid.2 with ⟨heq, _⟩ | ⟨heq, _⟩
    · exact ⟨heq ▸ hbelow, .inl heq⟩
    · exact ⟨heq ▸ habove, .inr ⟨heq, .inr rfl⟩⟩
  · subst hhit
    exact ⟨hbelow, .inl rfl⟩
  · subst hhit
    exact ⟨habove, .inr ⟨rfl, .inl hbelow⟩⟩

/-- A number that rounds to the positive double `x`. -/
def Identifies (v : ℚ) (x : Binary64) : Prop := (roundingInterval x).Holds (4 * (v * unit))

theorem onGrid_iff (x : Binary64) (power : Int) (k : Nat) :
    onGrid x power k = true ↔ Identifies (k * 10 ^ power) x := by
  cases power with
  | ofNat p =>
      simp only [onGrid, Identifies, Interval.contains_iff _ _ Nat.one_pos, Int.ofNat_eq_natCast,
        zpow_natCast]
      push_cast
      rw [div_one]
  | negSucc p =>
      simp only [onGrid, Identifies, zpow_negSucc]
      rw [Interval.contains_iff _ _ (by positivity)]
      push_cast
      rw [div_eq_mul_inv, mul_right_comm]

/-! ## The decimal that is found -/

/-- A decimal of `count` digits and the grid point `k * 10 ^ power` it was made
from.  A grid point that has a digit too many is a power of ten. -/
structure MadeFrom (decimal : Scientific) (count k : Nat) (power : Int) : Prop where
  count_le : count ≤ 17
  hasDigits : decimal.HasDigits count
  point :
    (k = decimal.coefficient ∧ power = decimal.leading - (count - 1 : ℕ)) ∨
      (k = 10 ^ count ∧ decimal.coefficient = 10 ^ (count - 1) ∧
        power + 1 = decimal.leading - (count - 1 : ℕ))

theorem MadeFrom.value {decimal : Scientific} {count k : Nat} {power : Int}
    (hmade : MadeFrom decimal count k power) :
    (k * 10 ^ power : ℚ) = decimal.value count := by
  unfold Scientific.value
  rcases hmade.point with ⟨hk, hpower⟩ | ⟨hk, hcoefficient, hpower⟩
  · rw [hk, hpower]
  · obtain ⟨n, rfl⟩ : ∃ n, count = n + 1 :=
      ⟨count - 1, by have := hmade.hasDigits.count_pos; omega⟩
    rw [← hpower, hk, hcoefficient, zpow_add₀ (by norm_num), Nat.add_sub_cancel]
    push_cast
    ring

theorem shortestFrom_cases (x : Binary64) (leading : Int) (attempts count : Nat) :
    (shortestFrom x leading attempts count = ⟨0, 0⟩ ∧
      ∀ tried, count ≤ tried → tried < count + attempts →
        gridHit? x (leading - (Int.ofNat tried - 1)) = none) ∨
      ∃ tried k, count ≤ tried ∧ tried < count + attempts ∧
        gridHit? x (leading - (Int.ofNat tried - 1)) = some k ∧
        shortestFrom x leading attempts count =
          if k < 10 ^ tried then ⟨k, leading⟩ else ⟨k / 10, leading + 1⟩ := by
  induction attempts generalizing count with
  | zero => exact .inl ⟨rfl, fun tried hle hlt => by omega⟩
  | succ attempts ih =>
      rw [shortestFrom]
      cases hhit : gridHit? x (leading - (Int.ofNat count - 1)) with
      | some k => exact .inr ⟨count, k, le_rfl, by omega, hhit, rfl⟩
      | none =>
          rcases ih (count + 1) with ⟨hnone, hmiss⟩ | ⟨tried, k, hle, hlt, hhit, heq⟩
          · refine .inl ⟨hnone, fun tried hle hlt => ?_⟩
            rcases Nat.eq_or_lt_of_le hle with hfirst | hlater
            · rw [← hfirst]
              exact hhit
            · exact hmiss tried hlater (by omega)
          · exact .inr ⟨tried, k, by omega, by omega, hhit, heq⟩

/-- The shortest decimal is made from a grid point, unless no grid has one. -/
theorem shortest_cases {x : Binary64} (hzero : x.isZero = false) :
    (shortest x = ⟨0, 0⟩ ∧ gridHit? x (leadingPower x.scaled unit - 16) = none) ∨
      ∃ count k power, gridHit? x power = some k ∧ MadeFrom (shortest x) count k power := by
  rcases shortestFrom_cases x (leadingPower x.scaled unit) 17 1 with
    ⟨hnone, hmiss⟩ | ⟨count, k, hcount, hlt, hhit, heq⟩
  · exact .inl ⟨hnone, hmiss 17 (by omega) (by omega)⟩
  · right
    refine ⟨count, k, _, hhit, ?_⟩
    have hbounds := below_bounds (Binary64.scaled_pos hzero) Binary64.unit_pos
      (show 0 < count by omega)
    have hneighbour := (gridHit?_eq_some hhit).2
    dsimp only at hbounds hneighbour
    have hpred : Int.ofNat count - 1 = ((count - 1 : ℕ) : ℤ) := by
      rw [Nat.cast_sub (by omega)]
      rfl
    rw [hpred] at hbounds hneighbour ⊢
    change MadeFrom (shortestFrom _ _ _ _) _ _ _
    rw [heq]
    by_cases hcarry : k < 10 ^ count
    · have hge : 10 ^ (count - 1) ≤ k := by omega
      rw [if_pos hcarry]
      refine ⟨by omega, ⟨hge, hcarry⟩, .inl ⟨?_, ?_⟩⟩ <;> simp only
    · have hk : k = 10 ^ count := by omega
      have hpow : 10 ^ count = 10 ^ (count - 1) * 10 := by
        rw [← pow_succ, Nat.sub_add_cancel hcount]
      have hpos : 0 < 10 ^ (count - 1) := by positivity
      have hdiv : k / 10 = 10 ^ (count - 1) := by omega
      have hlt : k / 10 < 10 ^ count := by omega
      rw [if_neg hcarry]
      refine ⟨by omega, ⟨hdiv.ge, hlt⟩, .inr ⟨hk, hdiv, ?_⟩⟩
      simp only
      ring

/-! ## Bounds of the shortest decimal -/

theorem MadeFrom.value_bounds {x : Binary64} {decimal : Scientific} {count k : Nat} {power : Int}
    (hmade : MadeFrom decimal count k power)
    (hfinite : x.isFinite = true) (hzero : x.isZero = false) (hhit : gridHit? x power = some k) :
    (1 : ℚ) ≤ 2 * unit * decimal.value count ∧
      decimal.value count ≤ Binary64.overflowBound := by
  obtain ⟨hlow, hhigh⟩ := ((onGrid_iff _ _ _).mp (gridHit?_eq_some hhit).1).bounds
  have hlowQ : (2 : ℚ) ≤ (roundingInterval x).low := by
    exact_mod_cast roundingInterval_low_pos hzero
  have hhighQ : ((roundingInterval x).high : ℚ) ≤ 4 * Binary64.overflowBound * unit := by
    exact_mod_cast roundingInterval_high_le hfinite
  have hunit : (0 : ℚ) < unit := by exact_mod_cast Binary64.unit_pos
  rw [← hmade.value]
  constructor
  · linarith
  · apply le_of_mul_le_mul_right _ hunit
    linarith

theorem shortest_leading_bounds {x : Binary64}
    (hfinite : x.isFinite = true) (hzero : x.isZero = false) :
    -324 ≤ (shortest x).leading ∧ (shortest x).leading ≤ 308 := by
  rcases shortest_cases hzero with ⟨hnone, -⟩ | ⟨count, k, power, hhit, hmade⟩
  · rw [hnone]
    decide
  · obtain ⟨hlow, hhigh⟩ := hmade.value_bounds hfinite hzero hhit
    obtain ⟨hge, hlt⟩ := hmade.hasDigits.between
    have hunit : (0 : ℚ) < unit := by exact_mod_cast Binary64.unit_pos
    constructor
    · have hnumber : 2 * unit < 10 ^ 324 := by decide +kernel
      have hnumberQ : (2 * unit : ℚ) < 10 ^ (324 : ℤ) := by exact_mod_cast hnumber
      have hpositive : (0 : ℚ) < 10 ^ ((shortest x).leading + 1) := by positivity
      have hbound : (10 : ℚ) ^ (-324 : ℤ) < 10 ^ ((shortest x).leading + 1) := by
        rw [zpow_neg, inv_lt_iff_one_lt_mul₀ (by positivity)]
        calc
          (1 : ℚ) ≤ 2 * unit * (shortest x).value count := hlow
          _ < 2 * unit * 10 ^ ((shortest x).leading + 1) :=
            mul_lt_mul_of_pos_left hlt (by linarith)
          _ < 10 ^ ((shortest x).leading + 1) * 10 ^ (324 : ℤ) := by
            rw [mul_comm]
            exact mul_lt_mul_of_pos_left hnumberQ hpositive
      have hexponent := (zpow_lt_zpow_iff_right₀ (by norm_num)).mp hbound
      omega
    · have hnumber : Binary64.overflowBound < 10 ^ 309 := by decide +kernel
      have hnumberQ : (Binary64.overflowBound : ℚ) < 10 ^ (309 : ℤ) := by
        exact_mod_cast hnumber
      have hbound : (10 : ℚ) ^ (shortest x).leading < 10 ^ (309 : ℤ) :=
        lt_of_le_of_lt (hge.trans hhigh) hnumberQ
      have hexponent := (zpow_lt_zpow_iff_right₀ (by norm_num)).mp hbound
      omega

/-! ## The product of coefficient and power -/

def largestCoefficient : Nat := 17976931348623157

/-- The next grid point above the one for the largest double is never chosen:
the lower one rounds to the same double and is nearer. -/
theorem gridHit?_ne_largestCoefficient_succ {x : Binary64} (hfinite : x.isFinite = true) :
    gridHit? x (Int.ofNat 292) ≠ some (largestCoefficient + 1) := by
  intro hhit
  have hscaled := Binary64.scaled_le_maxScaled hfinite
  obtain ⟨-, hneighbour⟩ := gridHit?_eq_some hhit
  -- the numbers are too long to be carried along, so they are named first
  obtain ⟨step, hstep⟩ : ∃ n, unit * 10 ^ 292 = n := ⟨_, rfl⟩
  obtain ⟨point, hpoint⟩ : ∃ n, largestCoefficient * step = n := ⟨_, rfl⟩
  obtain ⟨top, htop⟩ : ∃ n, 2 ^ 2045 = n := ⟨_, rfl⟩
  have hcommute : largestCoefficient * 10 ^ 292 * unit = point := by
    rw [← hpoint, ← hstep, mul_assoc, mul_comm unit]
  have hmax : Binary64.maxScaled / step = largestCoefficient := by
    rw [← hstep]
    decide +kernel
  have hgap : 4 * Binary64.maxScaled < 4 * point + top := by
    rw [← hpoint, ← hstep, ← htop]
    decide +kernel
  have hhalfway : 2 * Binary64.maxScaled + step < 2 * point + 2 * step := by
    rw [← hpoint, ← hstep]
    decide +kernel
  have hbinade : 2 ^ 53 * 2 ^ 2044 < point := by
    rw [← hpoint, ← hstep]
    decide +kernel
  have hgrid : overTenPow x.scaled unit (Int.ofNat 292) = (x.scaled, step) := by
    rw [overTenPow, hstep]
  rw [hgrid] at hneighbour
  dsimp only at hneighbour
  have hbelow : x.scaled / step ≤ largestCoefficient := by
    rw [← hmax]
    exact Nat.div_le_div_right hscaled
  rcases hneighbour with hlower | ⟨hupper, hwhy⟩
  · omega
  · have hquotient : x.scaled / step = largestCoefficient := by omega
    have hreach : point ≤ x.scaled := by
      rw [← hpoint, ← hquotient]
      exact Nat.div_mul_le_self _ _
    rcases hwhy with houtside | hnearest
    · -- the double is so large that its unit is the greatest one
      have hscale : x.scale = 2045 := by
        have hle := Binary64.scale_le hfinite
        by_contra hne
        have hpow : 2 ^ x.scale ≤ 2 ^ 2044 := Nat.pow_le_pow_right (by omega) (by omega)
        have hlt : x.scaled ≤ 2 ^ 53 * 2 ^ 2044 :=
          Nat.mul_le_mul (Binary64.significand_lt x).le hpow
        exact absurd (hreach.trans hlt) (Nat.not_le.mpr hbinade)
      have hinside : onGrid x (Int.ofNat 292) largestCoefficient = true := by
        apply Interval.contains_of_bounds
        · rw [mul_one, hcommute]
          have hlow := roundingInterval_low_le (lt_of_lt_of_le (by omega) hreach)
          rw [hscale, htop] at hlow
          omega
        · rw [mul_one, hcommute, roundingInterval_high]
          have hpos := Nat.two_pow_pos x.scale
          omega
      rw [hquotient, hinside] at houtside
      exact absurd houtside (by decide)
    · have hhalf := Binary64.two_mul_nearestEven_le x.scaled step
      rw [← hnearest, add_mul, one_mul, hpoint] at hhalf
      omega

/-- Coefficient and power of a written decimal, multiplied exactly, do not
exceed the decimal of the largest double. -/
theorem shortest_product_le {x : Binary64} (hfinite : x.isFinite = true)
    (hzero : x.isZero = false) {count k e : Nat} {power : Int}
    (hhit : gridHit? x power = some k) (hmade : MadeFrom (shortest x) count k power)
    (he : (shortest x).leading - (count - 1 : ℕ) = e) :
    (shortest x).coefficient * 10 ^ e ≤ largestCoefficient * 10 ^ 292 := by
  obtain ⟨-, hhigh⟩ := hmade.value_bounds hfinite hzero hhit
  have hpoint := hmade.point
  have hlt := hmade.hasDigits.coefficient_lt
  have hcountLe := hmade.count_le
  rw [Scientific.value, he] at hhigh
  rw [he] at hpoint
  generalize (shortest x).coefficient = c at hhigh hpoint hlt
  have hproduct : c * 10 ^ e ≤ Binary64.overflowBound := by
    rw [zpow_natCast] at hhigh
    exact_mod_cast hhigh
  have hseventeen : c < 10 ^ 17 := lt_of_lt_of_le hlt (Nat.pow_le_pow_right (by omega) hcountLe)
  rcases Nat.lt_or_ge e 292 with hsmall | hlarge
  · calc
      c * 10 ^ e ≤ 10 ^ 17 * 10 ^ 291 :=
        Nat.mul_le_mul hseventeen.le (Nat.pow_le_pow_right (by omega) (by omega))
      _ ≤ largestCoefficient * 10 ^ 292 := by decide +kernel
  · obtain ⟨d, rfl⟩ : ∃ d, e = 292 + d := ⟨e - 292, by omega⟩
    have hregroup : c * 10 ^ (292 + d) = c * 10 ^ d * 10 ^ 292 := by
      rw [pow_add]
      ring
    rw [hregroup] at hproduct ⊢
    apply Nat.mul_le_mul_right
    have hbound : c * 10 ^ d ≤ largestCoefficient + 1 := by
      have hnumber : Binary64.overflowBound < (largestCoefficient + 2) * 10 ^ 292 := by
        decide +kernel
      exact Nat.lt_succ_iff.mp
        (Nat.lt_of_mul_lt_mul_right (lt_of_le_of_lt hproduct hnumber))
    by_contra hgt
    have heq : c * 10 ^ d = largestCoefficient + 1 := by omega
    -- the last digit is an eight, so the coefficient is not padded
    have hd : d = 0 := by
      rcases Nat.eq_zero_or_pos d with hnone | hpos
      · exact hnone
      · have hdvd : 10 ∣ c * 10 ^ d := Dvd.dvd.mul_left (dvd_pow_self 10 hpos.ne') c
        rw [heq] at hdvd
        exact absurd hdvd (by decide)
    subst hd
    rw [pow_zero, mul_one] at heq
    rcases hpoint with ⟨hk, hpower⟩ | ⟨-, hcoefficient, -⟩
    · rw [hk, heq, hpower] at hhit
      exact gridHit?_ne_largestCoefficient_succ hfinite hhit
    · rw [heq] at hcoefficient
      have hne : ∀ n < 17, largestCoefficient + 1 ≠ 10 ^ n := by decide
      have hpos := hmade.hasDigits.count_pos
      exact hne (count - 1) (by omega) hcoefficient

def coefficientLimit (e : Nat) : Nat :=
  min (largestCoefficient * 10 ^ 292 / 10 ^ e) (10 ^ 17 - 1)

/-- From `10 ^ 291` on the greatest products are checked one by one. -/
theorem limit_product_lt : ∀ i < 18,
    (Binary64.ofNat (coefficientLimit (291 + i))).scaled * (Binary64.tenPow (291 + i)).scaled <
      Binary64.overflowBound * (unit * unit) := by
  decide +kernel

theorem overflowBound_gt {n : Nat} (hn : n ≤ 10 ^ 308) : n < Binary64.overflowBound := by
  have hnumber : 10 ^ 308 < Binary64.overflowBound := by decide +kernel
  exact lt_of_le_of_lt hn hnumber

/-- Multiplying the rounded coefficient by the rounded power does not
overflow. -/
theorem isInfinite_mul_tenPow {c e : Nat} (hpos : 0 < c) (hc : c < 10 ^ 17)
    (hproduct : c * 10 ^ e ≤ largestCoefficient * 10 ^ 292) :
    e ≤ 308 ∧ ((Binary64.ofNat c).mul (Binary64.tenPow e)).isInfinite = false := by
  have he : e < 309 := by
    have hnumber : largestCoefficient * 10 ^ 292 < 10 ^ 309 := by decide +kernel
    have hle : 10 ^ e ≤ c * 10 ^ e := Nat.le_mul_of_pos_left _ hpos
    exact (Nat.pow_lt_pow_iff_right (by omega)).mp
      (lt_of_le_of_lt (hle.trans hproduct) hnumber)
  refine ⟨by omega, ?_⟩
  -- smaller powers are covered by `10 ^ 291`, which allows every coefficient
  obtain ⟨i, hi, hle, hlimit⟩ :
      ∃ i < 18, e ≤ 291 + i ∧ c ≤ coefficientLimit (291 + i) := by
    rcases Nat.lt_or_ge e 291 with hsmall | hlarge
    · refine ⟨0, by omega, by omega, ?_⟩
      have hnumber : coefficientLimit (291 + 0) = 10 ^ 17 - 1 := by decide +kernel
      rw [hnumber]
      omega
    · refine ⟨e - 291, by omega, by omega, ?_⟩
      rw [Nat.add_sub_cancel' hlarge]
      exact le_min ((Nat.le_div_iff_mul_le (by positivity)).mpr hproduct) (by omega)
  have hcoefficient : (Binary64.ofNat c).scaled ≤
      (Binary64.ofNat (coefficientLimit (291 + i))).scaled := by
    apply Binary64.scaled_ofNat_mono hlimit
    apply overflowBound_gt
    exact (min_le_right _ _).trans (by decide +kernel)
  have hpower : (Binary64.tenPow e).scaled ≤ (Binary64.tenPow (291 + i)).scaled := by
    apply Binary64.scaled_ofNat_mono (Nat.pow_le_pow_right (by omega) hle)
    apply overflowBound_gt
    exact Nat.pow_le_pow_right (by omega) (by omega)
  apply Binary64.isInfinite_ofRatio (Nat.mul_pos Binary64.unit_pos Binary64.unit_pos)
  exact lt_of_le_of_lt (Nat.mul_le_mul hcoefficient hpower) (limit_product_lt i hi)

end Decimal
end SyntaxDump

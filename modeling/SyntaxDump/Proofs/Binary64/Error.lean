import SyntaxDump.Proofs.Decimal.Nearest

/-!
# The error of computed doubles

A double stands for its size.  The double computed for a ratio is off by a
fraction `2 ^ (-53)` of it or by half a least unit.  Relative errors of factors
and divisors add up, so a number that is computed in a few steps stays close to
the exact one; and no step is off if the ratio is a double itself.
-/

namespace SyntaxDump
namespace Binary64

open Decimal (roundsTo_nearestEven)

/-! ## Sizes -/

/-- The magnitude of a finite double. -/
def size (x : Binary64) : ℚ := x.scaled / unit

theorem unit_posQ : (0 : ℚ) < unit := by exact_mod_cast unit_pos

theorem size_nonneg (x : Binary64) : 0 ≤ x.size := by
  unfold size
  positivity

theorem size_mul_unit (x : Binary64) : x.size * unit = x.scaled :=
  div_mul_cancel₀ _ unit_posQ.ne'

/-- A double computed for a number is off by a fraction of it or by half a
least unit. -/
def Approximates (x : Binary64) (v : ℚ) : Prop :=
  |x.size - v| ≤ max (v / 2 ^ 53) (1 / 2 / (unit : ℚ))

/-- Rounding to whole multiples of a step moves a number by half a step at
most. -/
theorem abs_nearestEven_mul_sub_le (num : Nat) {den : Nat} (hden : 0 < den) (step : ℚ)
    (hstep : 0 < step) :
    |nearestEven num den * step - num / den * step| ≤ step / 2 := by
  have hhalf := (roundsTo_nearestEven num hden).half
  rw [← sub_mul, abs_mul, abs_sub_comm, abs_of_pos hstep]
  calc
    |(num / den : ℚ) - nearestEven num den| * step ≤ 1 / 2 * step :=
      mul_le_mul_of_nonneg_right hhalf hstep.le
    _ = step / 2 := by ring

theorem approximates_ofRatio {num den : Nat} (hden : 0 < den)
    (hsmall : num < overflowBound * den) : (ofRatio num den).Approximates (num / den) := by
  obtain ⟨s, hs⟩ : ∃ s, shiftOf num den = s := ⟨_, rfl⟩
  have hunit := unit_posQ
  have hdenQ : (0 : ℚ) < den := by exact_mod_cast hden
  have hpow : (0 : ℚ) < 2 ^ s := by positivity
  have hnear := abs_nearestEven_mul_sub_le (num * unit)
    (Nat.mul_pos hden (Nat.two_pow_pos s)) (2 ^ s / unit) (div_pos hpow hunit)
  have hexact : ((num * unit : ℕ) : ℚ) / (den * 2 ^ s : ℕ) * (2 ^ s / unit) = num / den := by
    push_cast
    rw [div_mul_div_comm, mul_assoc (den : ℚ), mul_comm (2 ^ s : ℚ), ← mul_assoc,
      mul_div_mul_right _ _ hpow.ne', mul_div_mul_right _ _ hunit.ne']
  have hsize : (ofRatio num den).size =
      nearestEven (num * unit) (den * 2 ^ s) * (2 ^ s / unit) := by
    rw [size, scaled_ofRatio hden hsmall, hs]
    push_cast
    rw [mul_div_assoc]
  rw [hexact, ← hsize] at hnear
  refine le_trans hnear ?_
  by_cases hzero : s = 0
  · subst hzero
    refine le_max_of_le_right (le_of_eq ?_)
    rw [pow_zero, div_right_comm]
  · refine le_max_of_le_left ?_
    have hlow := le_num_of_shiftOf hden (hs ▸ hzero)
    rw [hs] at hlow
    have hlowQ : (2 : ℚ) ^ 52 * (den * 2 ^ s) ≤ num * unit := by exact_mod_cast hlow
    rw [div_div, div_div, div_le_div_iff₀ (mul_pos hunit two_pos) (mul_pos hdenQ (by norm_num))]
    linarith

/-! ## Errors of computed numbers -/

/-- A number is off by a fraction `ε` of the exact one, and by `η` besides. -/
def Within (ε η a v : ℚ) : Prop := |a - v| ≤ ε * v + η

namespace Within

variable {ε δ η θ a b v w : ℚ}

theorem mono (ha : Within ε η a v) (hε : ε ≤ δ) (hη : η ≤ θ) (hv : 0 ≤ v) : Within δ θ a v :=
  le_trans ha (add_le_add (mul_le_mul_of_nonneg_right hε hv) hη)

theorem lower (ha : Within ε 0 a v) : (1 - ε) * v ≤ a := by
  have hdistance := (abs_le.mp ha).1
  linarith

theorem upper (ha : Within ε η a v) : a ≤ (1 + ε) * v + η := by
  have hdistance := (abs_le.mp ha).2
  linarith

theorem mul (ha : Within ε 0 a v) (hb : Within δ 0 b w) (hε : 0 ≤ ε) (hv : 0 ≤ v) (hw : 0 ≤ w) :
    Within (ε + δ + ε * δ) 0 (a * b) (v * w) := by
  unfold Within at ha hb ⊢
  rw [add_zero] at ha hb ⊢
  have hsplit : a * b - v * w = (a - v) * w + v * (b - w) + (a - v) * (b - w) := by ring
  have hfirst : |(a - v) * w| ≤ ε * v * w := by
    rw [abs_mul, abs_of_nonneg hw]
    exact mul_le_mul_of_nonneg_right ha hw
  have hsecond : |v * (b - w)| ≤ v * (δ * w) := by
    rw [abs_mul, abs_of_nonneg hv]
    exact mul_le_mul_of_nonneg_left hb hv
  have hboth : |(a - v) * (b - w)| ≤ ε * v * (δ * w) := by
    rw [abs_mul]
    exact mul_le_mul ha hb (abs_nonneg _) (mul_nonneg hε hv)
  rw [hsplit]
  calc
    |(a - v) * w + v * (b - w) + (a - v) * (b - w)| ≤
        |(a - v) * w| + |v * (b - w)| + |(a - v) * (b - w)| := abs_add_three _ _ _
    _ ≤ ε * v * w + v * (δ * w) + ε * v * (δ * w) := add_le_add_three hfirst hsecond hboth
    _ = (ε + δ + ε * δ) * (v * w) := by ring

theorem div (ha : Within ε η a v) (hb : Within δ 0 b w) (hε : 0 ≤ ε) (hη : 0 ≤ η) (hδ : 0 ≤ δ)
    (hlt : δ < 1) (hv : 0 ≤ v) (hw : 0 < w) :
    Within ((ε + δ) / (1 - δ)) (η / ((1 - δ) * w)) (a / b) (v / w) := by
  have hlow := hb.lower
  unfold Within at ha hb ⊢
  rw [add_zero] at hb
  have hleast : 0 < (1 - δ) * w := mul_pos (by linarith) hw
  have hbpos : 0 < b := lt_of_lt_of_le hleast hlow
  have hsplit : a / b - v / w = ((a - v) * w - v * (b - w)) / (b * w) := by
    field_simp
    ring
  have hnumerator : |(a - v) * w - v * (b - w)| ≤ (ε + δ) * (v * w) + η * w := by
    calc
      |(a - v) * w - v * (b - w)| ≤ |(a - v) * w| + |v * (b - w)| := abs_sub _ _
      _ = |a - v| * w + v * |b - w| := by
        rw [abs_mul, abs_mul, abs_of_pos hw, abs_of_nonneg hv]
      _ ≤ (ε * v + η) * w + v * (δ * w) :=
        add_le_add (mul_le_mul_of_nonneg_right ha hw.le) (mul_le_mul_of_nonneg_left hb hv)
      _ = (ε + δ) * (v * w) + η * w := by ring
  rw [hsplit, abs_div, abs_of_pos (mul_pos hbpos hw)]
  calc
    |(a - v) * w - v * (b - w)| / (b * w) ≤
        ((ε + δ) * (v * w) + η * w) / ((1 - δ) * w * w) :=
      div_le_div₀ (by positivity) hnumerator (mul_pos hleast hw)
        (mul_le_mul_of_nonneg_right hlow hw.le)
    _ = (ε + δ) / (1 - δ) * (v / w) + η / ((1 - δ) * w) := by
      have hne : 1 - δ ≠ 0 := by linarith
      field_simp

/-- Rounding adds an error of its own. -/
theorem round {x : Binary64} (ha : Within ε η a v) (hx : x.Approximates a) (hpos : 0 ≤ a) :
    Within (ε + (1 + ε) / 2 ^ 53) (η + η / 2 ^ 53 + 1 / 2 / unit) x.size v := by
  have hupper := ha.upper
  have hunit : (0 : ℚ) ≤ 1 / 2 / unit := div_nonneg (by norm_num) unit_posQ.le
  have hown : max (a / 2 ^ 53) (1 / 2 / (unit : ℚ)) ≤ a / 2 ^ 53 + 1 / 2 / unit :=
    max_le (le_add_of_nonneg_right hunit) (le_add_of_nonneg_left (by positivity))
  have hrounded : |x.size - a| ≤ a / 2 ^ 53 + 1 / 2 / unit := le_trans hx hown
  unfold Within at ha ⊢
  calc
    |x.size - v| ≤ |x.size - a| + |a - v| := abs_sub_le _ _ _
    _ ≤ ((1 + ε) * v + η) / 2 ^ 53 + 1 / 2 / unit + (ε * v + η) := by
      refine add_le_add (hrounded.trans (add_le_add_left ?_ _)) ha
      exact div_le_div_of_nonneg_right hupper (by norm_num)
    _ = (ε + (1 + ε) / 2 ^ 53) * v + (η + η / 2 ^ 53 + 1 / 2 / unit) := by ring

end Within

/-! ## Overflow -/

theorem le_nearestEven_of_odd {num den k : Nat} (hden : 0 < den) (hodd : k % 2 = 1)
    (hlow : (2 * k + 1) * den ≤ 2 * num) : k + 1 ≤ nearestEven num den := by
  obtain ⟨hhalf, heven⟩ := roundsTo_nearestEven num hden
  have hdenQ : (0 : ℚ) < den := by exact_mod_cast hden
  have hlowQ : ((2 * k + 1) * den : ℚ) ≤ 2 * num := by exact_mod_cast hlow
  have hratio : (k + 1 / 2 : ℚ) ≤ num / den := by
    rw [le_div_iff₀ hdenQ]
    linarith
  have hk : k ≤ nearestEven num den := by
    have hupper := (abs_le.mp hhalf).2
    exact_mod_cast (by linarith : (k : ℚ) ≤ nearestEven num den)
  rcases Nat.lt_or_eq_of_le hk with hlt | heq
  · exact hlt
  · -- half a step above an odd number there is nothing but a tie
    rw [← heq] at hhalf heven
    have htie : |(num / den : ℚ) - k| = 1 / 2 := by
      apply le_antisymm hhalf
      rw [abs_of_nonneg (by linarith)]
      linarith
    have hparity := Nat.even_iff.mp (heven htie)
    omega

/-- Half a unit above the largest double, the word reaches that of infinity: the
significand carries in the last binade, and there is no binade above it. -/
theorem infinityWord_le {num den : Nat} (hden : 0 < den) (hlarge : overflowBound * den ≤ num) :
    infinityWord ≤ shiftOf num den * 2 ^ 52 +
      nearestEven (num * unit) (den * 2 ^ shiftOf num den) := by
  have hinfinity : infinityWord = 2047 * 2 ^ 52 := rfl
  have hunits : overflowBound * unit * den ≤ num * unit := by
    rw [mul_right_comm]
    exact Nat.mul_le_mul_right _ hlarge
  have hshift : 2045 ≤ shiftOf num den := by
    have hpow : 2 ^ 2097 ≤ overflowBound * unit := by decide +kernel
    have hquotient : 2 ^ 2097 ≤ num * unit / den := by
      rw [Nat.le_div_iff_mul_le hden]
      exact (Nat.mul_le_mul_right _ hpow).trans hunits
    have hlog : 2097 ≤ (num * unit / den).log2 :=
      (Nat.le_log2 (lt_of_lt_of_le (Nat.two_pow_pos _) hquotient).ne').mpr hquotient
    rw [shiftOf]
    omega
  have hlow := le_num_of_shiftOf hden (show shiftOf num den ≠ 0 by omega)
  generalize shiftOf num den = s at hshift hlow ⊢
  have hstep : 0 < den * 2 ^ s := Nat.mul_pos hden (Nat.two_pow_pos _)
  rcases Nat.lt_or_eq_of_le hshift with habove | hlast
  · have hnormal := le_nearestEven hstep hlow
    omega
  · subst hlast
    have hscale : (2 * (2 ^ 53 - 1) + 1) * 2 ^ 2045 = 2 * (overflowBound * unit) := by
      decide +kernel
    have hhalf : (2 * (2 ^ 53 - 1) + 1) * (den * 2 ^ 2045) ≤ 2 * (num * unit) := by
      calc
        (2 * (2 ^ 53 - 1) + 1) * (den * 2 ^ 2045) =
            (2 * (2 ^ 53 - 1) + 1) * 2 ^ 2045 * den := by ring
        _ = 2 * (overflowBound * unit * den) := by rw [hscale, mul_assoc]
        _ ≤ 2 * (num * unit) := Nat.mul_le_mul_left 2 hunits
    have hcarry := le_nearestEven_of_odd hstep rfl hhalf
    omega

theorem isInfinite_ofRatio_iff {num den : Nat} (hden : 0 < den) :
    (ofRatio num den).isInfinite = true ↔ overflowBound * den ≤ num := by
  constructor
  · intro hinfinite
    by_contra hsmall
    rw [isInfinite_ofRatio hden (Nat.lt_of_not_le hsmall)] at hinfinite
    exact Bool.false_ne_true hinfinite
  · intro hlarge
    have heq : ofRatio num den = infinity := by
      rw [ofRatio_eq, min_eq_right (infinityWord_le hden hlarge)]
      rfl
    rw [heq]
    decide

/-! ## Exact results -/

/-- A natural number of at most fifty-three significant bits. -/
def Representable (n : Nat) : Prop := ∃ m s, m < 2 ^ 53 ∧ n = m * 2 ^ s

theorem representable_of_lt {n : Nat} (hn : n < 2 ^ 53) : Representable n :=
  ⟨n, 0, hn, (Nat.mul_one n).symm⟩

theorem representable_tenPow {k : Nat} (hk : k ≤ 22) : Representable (10 ^ k) := by
  refine ⟨5 ^ k, k, ?_, (Nat.mul_pow 5 2 k)⟩
  calc
    5 ^ k ≤ 5 ^ 22 := Nat.pow_le_pow_right (by omega) hk
    _ < 2 ^ 53 := by norm_num

/-- A ratio with few significant bits is not rounded. -/
theorem scaled_ofRatio_of_eq {num den m s : Nat} (hden : 0 < den)
    (hsmall : num < overflowBound * den) (hm : m < 2 ^ 53) (heq : num * unit = m * 2 ^ s * den) :
    (ofRatio num den).scaled = m * 2 ^ s := by
  have hshift : shiftOf num den ≤ s := by
    by_contra hlt
    have hlow := le_num_of_shiftOf hden (show shiftOf num den ≠ 0 by omega)
    have hpow : 2 * 2 ^ s ≤ 2 ^ shiftOf num den := by
      rw [← Nat.pow_succ']
      exact Nat.pow_le_pow_right (by omega) (by omega)
    have hupper : m * 2 ^ s * den < 2 ^ 52 * (den * 2 ^ shiftOf num den) := by
      calc
        m * 2 ^ s * den < 2 ^ 53 * 2 ^ s * den :=
          Nat.mul_lt_mul_of_pos_right
            (Nat.mul_lt_mul_of_pos_right hm (Nat.two_pow_pos s)) hden
        _ = 2 ^ 52 * (den * (2 * 2 ^ s)) := by ring
        _ ≤ 2 ^ 52 * (den * 2 ^ shiftOf num den) :=
          Nat.mul_le_mul_left _ (Nat.mul_le_mul_left _ hpow)
    omega
  obtain ⟨d, hd⟩ := Nat.exists_eq_add_of_le hshift
  have hstep : 0 < den * 2 ^ shiftOf num den := Nat.mul_pos hden (Nat.two_pow_pos _)
  have hmultiple : num * unit = m * 2 ^ d * (den * 2 ^ shiftOf num den) := by
    rw [heq, hd, pow_add]
    ring
  have hnear : nearestEven (num * unit) (den * 2 ^ shiftOf num den) = m * 2 ^ d :=
    le_antisymm (nearestEven_le hstep hmultiple.le) (le_nearestEven hstep hmultiple.ge)
  rw [scaled_ofRatio hden hsmall, hnear, mul_assoc, ← pow_add, add_comm d, ← hd]

theorem scaled_ofNat {n : Nat} (hn : Representable n) (hsmall : n < overflowBound) :
    (ofNat n).scaled = n * unit := by
  obtain ⟨m, s, hm, rfl⟩ := hn
  have hunit : unit = 2 ^ 1074 := rfl
  have hexact := @scaled_ofRatio_of_eq (m * 2 ^ s) 1 m (s + 1074) Nat.one_pos
    (by simpa using hsmall) hm (by rw [hunit, pow_add]; ring)
  rw [ofNat, hexact, hunit, pow_add]
  ring

/-! ## Operations -/

theorem within_ofNat {n : Nat} (hpos : 0 < n) (hsmall : n < overflowBound) :
    Within (1 / 2 ^ 53) 0 (ofNat n).size n := by
  have hrounded : |(ofNat n).size - ((n : ℕ) / (1 : ℕ) : ℚ)| ≤ _ :=
    approximates_ofRatio Nat.one_pos (by simpa using hsmall)
  rw [Nat.cast_one, div_one] at hrounded
  rw [Within, add_zero]
  refine hrounded.trans (max_le (by rw [div_mul_eq_mul_div, one_mul]) ?_)
  -- a whole number is far above the numbers with the least unit
  have hunit : 2 ^ 53 ≤ 2 * unit := by
    rw [unit, ← Nat.pow_succ']
    exact Nat.pow_le_pow_right (by omega) (by omega)
  have hunitQ : (2 ^ 53 : ℚ) ≤ 2 * unit := by exact_mod_cast hunit
  have hone : (1 : ℚ) ≤ n := by exact_mod_cast hpos
  rw [div_div]
  calc
    1 / (2 * (unit : ℚ)) ≤ 1 / 2 ^ 53 := one_div_le_one_div_of_le (by norm_num) hunitQ
    _ ≤ 1 / 2 ^ 53 * n := le_mul_of_one_le_right (by norm_num) hone

theorem approximates_mul {x y : Binary64} (hfinite : (x.mul y).isInfinite = false) :
    (x.mul y).Approximates (x.size * y.size) := by
  have hunits : 0 < unit * unit := Nat.mul_pos unit_pos unit_pos
  have hsmall : x.scaled * y.scaled < overflowBound * (unit * unit) := by
    by_contra hlarge
    have hinfinite := (isInfinite_ofRatio_iff hunits).mpr (Nat.le_of_not_lt hlarge)
    rw [mul, hinfinite] at hfinite
    exact absurd hfinite (by decide)
  have hsizes : x.size * y.size = (x.scaled * y.scaled : ℕ) / (unit * unit : ℕ) := by
    rw [size, size, div_mul_div_comm]
    push_cast
    rfl
  rw [hsizes]
  exact approximates_ofRatio hunits hsmall

theorem approximates_div {x y : Binary64} (hy : 0 < y.scaled)
    (hsmall : x.scaled < overflowBound * y.scaled) :
    (x.div y).Approximates (x.size / y.size) := by
  rw [size, size, div_div_div_cancel_right₀ unit_posQ.ne']
  exact approximates_ofRatio hy hsmall

/-! ## Finite results -/

theorem word_ofRatio_lt {num den : Nat} (hfinite : (ofRatio num den).isInfinite = false) :
    (ofRatio num den).word < infinityWord := by
  rw [ofRatio_eq] at hfinite ⊢
  rcases Nat.lt_or_ge (shiftOf num den * 2 ^ 52 +
    nearestEven (num * unit) (den * 2 ^ shiftOf num den)) infinityWord with hlt | hge
  · have hinfinity : infinityWord = 2047 * 2 ^ 52 := rfl
    rw [min_eq_left hlt.le, word_ofWord (by omega)]
    exact hlt
  · rw [min_eq_right hge] at hfinite
    exact absurd hfinite (by decide)

theorem scaled_lt {x : Binary64} (hx : x.word < infinityWord) :
    x.scaled < overflowBound * unit := by
  have hmax : maxScaled < overflowBound * unit := by decide +kernel
  exact lt_of_le_of_lt (scaled_le_maxScaled (isFinite_of_word_lt hx)) hmax

theorem word_ofNat_lt {n : Nat} (hsmall : n < overflowBound) : (ofNat n).word < infinityWord :=
  word_ofRatio_lt (isInfinite_ofRatio Nat.one_pos (by simpa using hsmall))

theorem unit_le_scaled_ofNat {n : Nat} (hpos : 0 < n) (hsmall : n < overflowBound) :
    unit ≤ (ofNat n).scaled := by
  have hone : (ofNat 1).scaled = 1 * unit :=
    scaled_ofNat (representable_of_lt (by norm_num)) (lt_of_le_of_lt hpos hsmall)
  rw [← Nat.one_mul unit, ← hone]
  exact scaled_ofNat_mono hpos hsmall

/-- Dividing by at least one does not overflow. -/
theorem scaled_lt_mul {x y : Binary64} (hx : x.word < infinityWord) (hy : unit ≤ y.scaled) :
    x.scaled < overflowBound * y.scaled :=
  lt_of_lt_of_le (scaled_lt hx) (Nat.mul_le_mul_left _ hy)

theorem word_div_lt {x y : Binary64} (hx : x.word < infinityWord) (hy : unit ≤ y.scaled) :
    (x.div y).word < infinityWord :=
  word_ofRatio_lt (isInfinite_ofRatio (lt_of_lt_of_le unit_pos hy) (scaled_lt_mul hx hy))

end Binary64
end SyntaxDump

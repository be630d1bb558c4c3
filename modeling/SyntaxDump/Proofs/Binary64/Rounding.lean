import Mathlib.Tactic
import SyntaxDump.Binary64

/-!
# Rounding a ratio to a double

`ofRatio` picks a unit of the last place, rounds the ratio to a multiple of it
and packs the multiple into a word.  Packing loses nothing, even when the
multiple carries into the exponent field, so the double has exactly the
magnitude of the rounded multiple.  Two consequences are used by readers of
numbers: rounding is monotone, and a ratio less than half a unit above the
largest double does not become infinite.
-/

namespace SyntaxDump
namespace Binary64

/-! ## Nearest multiples -/

theorem nearestEven_cases (num den : Nat) :
    (nearestEven num den = num / den ∧ 2 * (num % den) ≤ den) ∨
      (nearestEven num den = num / den + 1 ∧ den ≤ 2 * (num % den)) := by
  unfold nearestEven
  dsimp only
  by_cases hbelow : 2 * (num % den) < den
  · rw [if_pos hbelow]
    exact .inl ⟨rfl, by omega⟩
  · rw [if_neg hbelow]
    by_cases habove : den < 2 * (num % den)
    · rw [if_pos habove]
      exact .inr ⟨rfl, by omega⟩
    · rw [if_neg habove]
      rcases Nat.mod_two_eq_zero_or_one (num / den) with heven | hodd
      · exact .inl ⟨by omega, by omega⟩
      · exact .inr ⟨by omega, by omega⟩

theorem two_mul_nearestEven_le (num den : Nat) :
    2 * (nearestEven num den * den) ≤ 2 * num + den := by
  have hsplit := Nat.div_add_mod num den
  rw [mul_comm] at hsplit
  rcases nearestEven_cases num den with ⟨heq, _⟩ | ⟨heq, hhalf⟩
  · rw [heq]
    omega
  · rw [heq, add_mul, one_mul]
    omega

theorem le_nearestEven {num den k : Nat} (hden : 0 < den) (hk : k * den ≤ num) :
    k ≤ nearestEven num den := by
  have hquotient : k ≤ num / den := (Nat.le_div_iff_mul_le hden).mpr hk
  rcases nearestEven_cases num den with ⟨heq, _⟩ | ⟨heq, _⟩ <;> omega

theorem nearestEven_le {num den k : Nat} (hden : 0 < den) (hk : num ≤ k * den) :
    nearestEven num den ≤ k := by
  rcases nearestEven_cases num den with ⟨heq, _⟩ | ⟨heq, hhalf⟩
  · rw [heq]
    exact Nat.div_le_of_le_mul (by rw [mul_comm]; exact hk)
  · rw [heq]
    have hpos : 0 < num % den := by omega
    have hsplit := Nat.div_add_mod num den
    rw [mul_comm] at hsplit
    have hlt : num / den * den < k * den := by omega
    exact Nat.lt_of_mul_lt_mul_right hlt

theorem nearestEven_mono {m n : Nat} (den : Nat) (hmn : m ≤ n) :
    nearestEven m den ≤ nearestEven n den := by
  have hle : m / den ≤ n / den := Nat.div_le_div_right hmn
  rcases Nat.lt_or_ge (m / den) (n / den) with hlt | hge
  · rcases nearestEven_cases m den with ⟨hm, _⟩ | ⟨hm, _⟩ <;>
      rcases nearestEven_cases n den with ⟨hn, _⟩ | ⟨hn, _⟩ <;> omega
  · have heq : m / den = n / den := le_antisymm hle hge
    have hm := Nat.div_add_mod m den
    have hn := Nat.div_add_mod n den
    rw [heq] at hm
    have hmod : m % den ≤ n % den := by omega
    unfold nearestEven
    dsimp only
    rw [heq]
    split_ifs <;> omega

/-! ## Packed words -/

theorem word_ofWord {word : Nat} (hword : word < 2 ^ 64) :
    (ofWord word).word = word := by
  rw [ofWord, Binary64.word]
  exact UInt64.toNat_ofNat_of_lt' hword

theorem word_lt (x : Binary64) : x.word < 2 ^ 64 := x.bits.toNat_lt

/-- A significand and a unit pack into one word; the significand may be one
more than the largest, in which case the carry doubles the unit. -/
structure Packable (shift significand : Nat) : Prop where
  significand_le : significand ≤ 2 ^ 53
  normal : 2 ^ 52 ≤ significand ∨ shift = 0
  fits : shift * 2 ^ 52 + significand < infinityWord

theorem Packable.scaled_ofWord
    {shift significand : Nat} (hpack : Packable shift significand) :
    (ofWord (shift * 2 ^ 52 + significand)).scaled = significand * 2 ^ shift := by
  have hle := hpack.significand_le
  have hfits := hpack.fits
  have hinfinity : infinityWord = 2047 * 2 ^ 52 := rfl
  have hword : (ofWord (shift * 2 ^ 52 + significand)).word = shift * 2 ^ 52 + significand :=
    word_ofWord (by omega)
  unfold scaled Binary64.significand scale exponentField fractionField natPow
  rw [hword]
  rcases Nat.lt_or_ge significand (2 ^ 52) with hsmall | hlarge
  · have hshift : shift = 0 := by
      rcases hpack.normal with hnormal | hzero
      · omega
      · exact hzero
    subst hshift
    have hexponent : (0 * 2 ^ 52 + significand) / 2 ^ 52 % 2 ^ 11 = 0 := by omega
    have hfraction : (0 * 2 ^ 52 + significand) % 2 ^ 52 = significand := by omega
    rw [if_pos hexponent, hexponent, hfraction]
  · rcases Nat.lt_or_ge significand (2 ^ 53) with hmiddle | hcarry
    · have hexponent : (shift * 2 ^ 52 + significand) / 2 ^ 52 % 2 ^ 11 = shift + 1 := by
        omega
      have hfraction : (shift * 2 ^ 52 + significand) % 2 ^ 52 = significand - 2 ^ 52 := by
        omega
      rw [if_neg (by omega), hexponent, hfraction, Nat.add_sub_cancel,
        Nat.add_sub_cancel' hlarge]
    · have heq : significand = 2 ^ 53 := by omega
      have hexponent : (shift * 2 ^ 52 + significand) / 2 ^ 52 % 2 ^ 11 = shift + 2 := by
        omega
      have hfraction : (shift * 2 ^ 52 + significand) % 2 ^ 52 = 0 := by
        omega
      rw [if_neg (by omega), hexponent, hfraction, heq]
      rw [show shift + 2 - 1 = shift + 1 by omega, pow_succ]
      ring

theorem isFinite_of_word_lt {x : Binary64} (hx : x.word < infinityWord) : x.isFinite = true := by
  have hinfinity : infinityWord = 2047 * 2 ^ 52 := rfl
  have hne : x.word / 2 ^ 52 % 2 ^ 11 ≠ 2047 := by omega
  simpa [isFinite, exponentField] using hne

theorem isInfinite_ofWord {word : Nat} (hword : word < infinityWord) :
    (ofWord word).isInfinite = false := by
  have hinfinity : infinityWord = 2047 * 2 ^ 52 := rfl
  have hfinite : (ofWord word).isFinite = true := by
    apply isFinite_of_word_lt
    rwa [word_ofWord (by omega)]
  simp [isInfinite, hfinite]

/-! ## Finite doubles -/

theorem significand_lt (x : Binary64) : x.significand < 2 ^ 53 := by
  have hfraction : x.fractionField < 2 ^ 52 := Nat.mod_lt _ (Nat.two_pow_pos 52)
  unfold significand natPow
  split_ifs <;> omega

theorem scale_le {x : Binary64} (hx : x.isFinite = true) : x.scale ≤ 2045 := by
  have hexponent : x.exponentField < 2 ^ 11 := Nat.mod_lt _ (Nat.two_pow_pos 11)
  have hne : x.exponentField ≠ 2047 := by simpa [isFinite] using hx
  unfold scale
  omega

def maxScaled : Nat := (2 ^ 53 - 1) * 2 ^ 2045

theorem scaled_le_maxScaled {x : Binary64} (hx : x.isFinite = true) :
    x.scaled ≤ maxScaled := by
  have hsignificand : x.significand ≤ 2 ^ 53 - 1 := by
    have hlt := significand_lt x
    omega
  rw [scaled, natPow, maxScaled]
  have hscale := scale_le hx
  gcongr
  exact one_le_two

theorem significand_pos {x : Binary64} (hx : x.isZero = false) :
    0 < x.significand := by
  have hne : ¬ x.word % 2 ^ 63 = 0 := by simpa [isZero] using hx
  unfold significand exponentField fractionField natPow
  have hlt := word_lt x
  split_ifs with hexponent <;> omega

theorem scaled_pos {x : Binary64} (hx : x.isZero = false) : 0 < x.scaled :=
  Nat.mul_pos (significand_pos hx) (Nat.two_pow_pos _)

/-! ## Rounded ratios -/

theorem unit_pos : 0 < unit := by
  rw [unit, natPow]
  positivity

/-- The binary exponent of the unit in which a ratio is rounded. -/
def shiftOf (num den : Nat) : Nat := (num * unit / den).log2 - 52

theorem ofRatio_eq (num den : Nat) :
    ofRatio num den =
      ofWord (min (shiftOf num den * 2 ^ 52 +
        nearestEven (num * unit) (den * 2 ^ shiftOf num den)) infinityWord) := rfl

theorem num_lt_of_shiftOf (num : Nat) {den : Nat} (hden : 0 < den) :
    num * unit < 2 ^ 53 * (den * 2 ^ shiftOf num den) := by
  have hlog : num * unit / den < 2 ^ ((num * unit / den).log2 + 1) := Nat.lt_log2_self
  have hle : 2 ^ ((num * unit / den).log2 + 1) ≤ 2 ^ (53 + shiftOf num den) := by
    apply Nat.pow_le_pow_right (by omega)
    unfold shiftOf
    omega
  have hlt : num * unit / den < 2 ^ (53 + shiftOf num den) := lt_of_lt_of_le hlog hle
  rw [Nat.div_lt_iff_lt_mul hden, pow_add] at hlt
  calc
    num * unit < 2 ^ 53 * 2 ^ shiftOf num den * den := hlt
    _ = 2 ^ 53 * (den * 2 ^ shiftOf num den) := by ring

theorem le_num_of_shiftOf {num den : Nat} (hden : 0 < den) (hshift : shiftOf num den ≠ 0) :
    2 ^ 52 * (den * 2 ^ shiftOf num den) ≤ num * unit := by
  have hlog : shiftOf num den + 52 = (num * unit / den).log2 := by
    unfold shiftOf at hshift ⊢
    omega
  have hne : num * unit / den ≠ 0 := by
    intro hzero
    rw [hzero] at hlog
    simp at hlog
  have hle : 2 ^ (shiftOf num den + 52) ≤ num * unit / den := by
    rw [hlog]
    exact Nat.log2_self_le hne
  rw [Nat.le_div_iff_mul_le hden, pow_add] at hle
  calc
    2 ^ 52 * (den * 2 ^ shiftOf num den) = 2 ^ shiftOf num den * 2 ^ 52 * den := by ring
    _ ≤ num * unit := hle

/-- Half a unit above the largest finite double: ratios from there on round to
infinity. -/
def overflowBound : Nat := 2 ^ 1024 - 2 ^ 970

theorem shiftOf_le {num den : Nat} (hden : 0 < den) (hsmall : num < overflowBound * den) :
    shiftOf num den ≤ 2045 := by
  have hlt : num * unit / den < 2 ^ 2098 := by
    rw [Nat.div_lt_iff_lt_mul hden]
    calc
      num * unit < overflowBound * den * unit :=
        Nat.mul_lt_mul_of_pos_right hsmall unit_pos
      _ ≤ 2 ^ 1024 * den * unit := by
        apply Nat.mul_le_mul_right
        exact Nat.mul_le_mul_right _ (Nat.sub_le _ _)
      _ = 2 ^ 2098 * den := by
        rw [show (2098 : Nat) = 1024 + 1074 from rfl, pow_add, unit, natPow, mul_right_comm]
  by_cases hzero : num * unit / den = 0
  · unfold shiftOf
    rw [hzero]
    simp
  · have hlog : (num * unit / den).log2 < 2098 := (Nat.log2_lt hzero).mpr hlt
    unfold shiftOf
    omega

theorem packable_of_lt_overflowBound
    {num den : Nat} (hden : 0 < den) (hsmall : num < overflowBound * den) :
    Packable (shiftOf num den)
      (nearestEven (num * unit) (den * 2 ^ shiftOf num den)) := by
  have hstep : 0 < den * 2 ^ shiftOf num den := Nat.mul_pos hden (Nat.two_pow_pos _)
  have hshift := shiftOf_le hden hsmall
  have hle : nearestEven (num * unit) (den * 2 ^ shiftOf num den) ≤ 2 ^ 53 :=
    nearestEven_le hstep (num_lt_of_shiftOf num hden).le
  refine ⟨hle, ?_, ?_⟩
  · by_cases hzero : shiftOf num den = 0
    · exact .inr hzero
    · exact .inl (le_nearestEven hstep (le_num_of_shiftOf hden hzero))
  · have hinfinity : infinityWord = 2047 * 2 ^ 52 := rfl
    rcases Nat.lt_or_ge (shiftOf num den) 2045 with hlt | hge
    · omega
    · have heq : shiftOf num den = 2045 := le_antisymm hshift hge
      rw [heq]
      -- in the last binade the rounded multiple must stay below `2 ^ 53`
      have hbound : 2 * (nearestEven (num * unit) (den * 2 ^ 2045) * (den * 2 ^ 2045)) <
          2 ^ 54 * (den * 2 ^ 2045) := by
        calc
          2 * (nearestEven (num * unit) (den * 2 ^ 2045) * (den * 2 ^ 2045)) ≤
              2 * (num * unit) + den * 2 ^ 2045 := two_mul_nearestEven_le _ _
          _ < 2 * (overflowBound * den * unit) + den * 2 ^ 2045 := by
            have hmul : num * unit < overflowBound * den * unit :=
              Nat.mul_lt_mul_of_pos_right hsmall unit_pos
            omega
          _ = 2 ^ 54 * (den * 2 ^ 2045) := by
            have hscale : 2 * (overflowBound * unit) + 2 ^ 2045 = 2 ^ 54 * 2 ^ 2045 := by
              decide +kernel
            calc
              2 * (overflowBound * den * unit) + den * 2 ^ 2045 =
                  den * (2 * (overflowBound * unit) + 2 ^ 2045) := by ring
              _ = 2 ^ 54 * (den * 2 ^ 2045) := by rw [hscale]; ring
      have hlt : 2 * nearestEven (num * unit) (den * 2 ^ 2045) < 2 ^ 54 := by
        apply Nat.lt_of_mul_lt_mul_right (a := den * 2 ^ 2045)
        rw [mul_assoc]
        exact hbound
      omega

/-- The double nearest to a ratio has the magnitude of the rounded multiple. -/
theorem scaled_ofRatio
    {num den : Nat} (hden : 0 < den) (hsmall : num < overflowBound * den) :
    (ofRatio num den).scaled =
      nearestEven (num * unit) (den * 2 ^ shiftOf num den) * 2 ^ shiftOf num den := by
  have hpack := packable_of_lt_overflowBound hden hsmall
  rw [ofRatio_eq, min_eq_left hpack.fits.le]
  exact hpack.scaled_ofWord

theorem isInfinite_ofRatio
    {num den : Nat} (hden : 0 < den) (hsmall : num < overflowBound * den) :
    (ofRatio num den).isInfinite = false := by
  have hpack := packable_of_lt_overflowBound hden hsmall
  rw [ofRatio_eq, min_eq_left hpack.fits.le]
  exact isInfinite_ofWord hpack.fits

theorem scaled_ofRatio_mono
    {m n den : Nat} (hden : 0 < den) (hmn : m ≤ n) (hsmall : n < overflowBound * den) :
    (ofRatio m den).scaled ≤ (ofRatio n den).scaled := by
  rw [scaled_ofRatio hden hsmall, scaled_ofRatio hden (lt_of_le_of_lt hmn hsmall)]
  have hunit : m * unit ≤ n * unit := Nat.mul_le_mul_right _ hmn
  have hlog : shiftOf m den ≤ shiftOf n den := by
    unfold shiftOf
    apply Nat.sub_le_sub_right
    rw [Nat.log2_eq_log_two, Nat.log2_eq_log_two]
    exact Nat.log_mono_right (Nat.div_le_div_right hunit)
  rcases Nat.lt_or_ge (shiftOf m den) (shiftOf n den) with hlt | hge
  · -- a smaller unit: the first value ends where the second binade starts
    have hstep : 0 < den * 2 ^ shiftOf m den := Nat.mul_pos hden (Nat.two_pow_pos _)
    have hstep' : 0 < den * 2 ^ shiftOf n den := Nat.mul_pos hden (Nat.two_pow_pos _)
    calc
      nearestEven (m * unit) (den * 2 ^ shiftOf m den) * 2 ^ shiftOf m den ≤
          2 ^ 53 * 2 ^ shiftOf m den :=
        Nat.mul_le_mul_right _ (nearestEven_le hstep (num_lt_of_shiftOf m hden).le)
      _ = 2 ^ 52 * 2 ^ (shiftOf m den + 1) := by ring
      _ ≤ 2 ^ 52 * 2 ^ shiftOf n den :=
        Nat.mul_le_mul_left _ (Nat.pow_le_pow_right (by omega) hlt)
      _ ≤ nearestEven (n * unit) (den * 2 ^ shiftOf n den) * 2 ^ shiftOf n den :=
        Nat.mul_le_mul_right _ (le_nearestEven hstep' (le_num_of_shiftOf hden (by omega)))
  · have heq : shiftOf m den = shiftOf n den := le_antisymm hlog hge
    rw [heq]
    apply Nat.mul_le_mul_right
    exact nearestEven_mono _ hunit

theorem scaled_ofNat_mono {m n : Nat} (hmn : m ≤ n) (hsmall : n < overflowBound) :
    (ofNat m).scaled ≤ (ofNat n).scaled :=
  scaled_ofRatio_mono Nat.one_pos hmn (by simpa using hsmall)

/-! ## Signs -/

theorem eq_of_word_eq {x y : Binary64} (heq : x.word = y.word) : x = y := by
  have hbits : x.bits = y.bits := UInt64.toNat_inj.mp heq
  cases x
  cases y
  simpa using hbits

theorem word_neg {x : Binary64} (hx : x.word < 2 ^ 63) : x.neg.word = 2 ^ 63 + x.word := by
  have hxor : x.neg.word = x.word ^^^ 2 ^ 63 := UInt64.toNat_xor _ _
  have hor := Nat.two_pow_add_eq_or_of_lt hx 1
  rw [mul_one] at hor
  rw [hxor, hor]
  apply Nat.eq_of_testBit_eq
  intro i
  rw [Nat.testBit_xor, Nat.testBit_or, Nat.testBit_two_pow]
  by_cases hi : 63 = i
  · subst hi
    simp [Nat.testBit_lt_two_pow hx]
  · simp [hi]

theorem word_signed (negative : Bool) {x : Binary64} (hx : x.word < 2 ^ 63) :
    (signed negative x).word = (if negative then 2 ^ 63 else 0) + x.word := by
  cases negative with
  | true => exact word_neg hx
  | false => exact (Nat.zero_add _).symm

theorem isNegative_signed (negative : Bool) {x : Binary64} (hx : x.word < 2 ^ 63) :
    (signed negative x).isNegative = negative := by
  rw [isNegative, word_signed negative hx]
  cases negative with
  | true => simp
  | false => simpa using hx

/-- The fields below the sign bit are those of the unsigned double. -/
theorem fields_signed (negative : Bool) {x : Binary64} (hx : x.word < 2 ^ 63) :
    (signed negative x).exponentField = x.exponentField ∧
      (signed negative x).fractionField = x.fractionField := by
  unfold exponentField fractionField natPow
  rw [word_signed negative hx]
  cases negative with
  | true =>
      rw [if_pos rfl]
      omega
  | false => simp

theorem isFinite_signed (negative : Bool) {x : Binary64} (hx : x.word < 2 ^ 63) :
    (signed negative x).isFinite = x.isFinite := by
  rw [isFinite, (fields_signed negative hx).1, isFinite]

theorem scaled_signed (negative : Bool) {x : Binary64} (hx : x.word < 2 ^ 63) :
    (signed negative x).scaled = x.scaled := by
  obtain ⟨hexponent, hfraction⟩ := fields_signed negative hx
  simp only [scaled, significand, scale, hexponent, hfraction]

def magnitude (x : Binary64) : Binary64 := ofWord (x.word % 2 ^ 63)

theorem word_magnitude (x : Binary64) : x.magnitude.word = x.word % 2 ^ 63 :=
  word_ofWord (by omega)

theorem signed_magnitude (x : Binary64) : signed x.isNegative x.magnitude = x := by
  have hlt := word_lt x
  apply eq_of_word_eq
  rw [word_signed _ (by rw [word_magnitude]; omega), word_magnitude]
  rw [isNegative, natPow]
  split_ifs with hnegative <;> simp at hnegative <;> omega

theorem scaled_magnitude (x : Binary64) : x.magnitude.scaled = x.scaled := by
  have hword : x.magnitude.word < 2 ^ 63 := by
    rw [word_magnitude]
    omega
  have hscaled := scaled_signed x.isNegative hword
  rwa [signed_magnitude, eq_comm] at hscaled

/-- The word of a double is that of its unit plus its significand, the implicit
leading bit of which carries into the exponent field. -/
theorem word_mod_eq (x : Binary64) : x.word % 2 ^ 63 = x.scale * 2 ^ 52 + x.significand := by
  have hfields : x.word % 2 ^ 63 = x.exponentField * 2 ^ 52 + x.fractionField := by
    unfold exponentField fractionField natPow
    omega
  rw [hfields]
  rw [significand, scale, natPow]
  generalize x.exponentField = exponent
  cases exponent with
  | zero => simp
  | succ exponent =>
      rw [if_neg (Nat.succ_ne_zero exponent)]
      omega

end Binary64
end SyntaxDump

import SyntaxDump.Proofs.Decimal.Identify
import SyntaxDump.Proofs.Interchange.RoundTrip
import SyntaxDump.Proofs.Json.Scaling
import SyntaxDump.Proofs.Tag.Double

/-!
# How precisely doubles are read back

The numeral written for a double has the digits of its shortest decimal, perhaps
with zeros behind them.  Reading scales these digits by a power of ten and is a
few units in the last place off at most; where only the last step of the scaling
rounds, it finds the double whose decimal was written.
-/

namespace SyntaxDump

open Decimal (isDigit valueOf digits Identifies)

namespace Json

open Binary64 (Within unit infinityWord overflowBound)

/-! ## The significand and the power of a numeral -/

namespace Numeral

/-- The digits of a numeral without the point. -/
def significand (numeral : Numeral) : Nat :=
  valueOf (numeral.whole ++ numeral.fraction.getD [])

/-- The power of ten of the last digit of a numeral. -/
def power (numeral : Numeral) : ℤ :=
  exponentPower numeral.exponent - (numeral.fraction.getD []).length

/-- A numeral with a point or an exponent is scaled by its power of ten. -/
theorem value_eq_scaledValue {numeral : Numeral}
    (hparts : numeral.fraction ≠ none ∨ numeral.exponent ≠ none)
    (hfraction : numeral.fraction ≠ some [])
    (hsignificand : numeral.significand < 2 ^ 64)
    (hexponent : ∀ part ∈ numeral.exponent,
      valueOf part.2 + (numeral.fraction.getD []).length < 2 ^ 31) :
    numeral.value = numeral.scaledValue numeral.significand numeral.power := by
  obtain ⟨negative, whole, fraction, exponent⟩ := numeral
  cases exponent with
  | some part =>
      obtain ⟨down, ds⟩ := part
      exact value_exponent hsignificand (hexponent _ rfl)
  | none =>
      cases fraction with
      | none => simp at hparts
      | some ds =>
          have hne : ds ≠ [] := fun hnone => hfraction (congrArg some hnone)
          rw [value_fraction hne hsignificand]
          obtain ⟨places, hplaces⟩ : ∃ n, ds.length = n + 1 :=
            Nat.exists_eq_succ_of_ne_zero (by simpa using hne)
          have hpower : (⟨negative, whole, some ds, none⟩ : Numeral).power =
              Int.negSucc places := by
            simp only [power, exponentPower, Option.getD_some, hplaces]
            omega
          rw [hpower, hplaces]
          rfl

end Numeral

/-- The digits of a decimal and zeros behind them, as they are read again. -/
structure Padded (numeral : Numeral) (c : Nat) (leading : Int) (zeros : Nat) : Prop where
  significand : numeral.significand = c * 10 ^ zeros
  power : numeral.power = leading - ((digits c).length - 1 : ℕ) - zeros
  length_le : (digits c).length + zeros ≤ 17

theorem valueOf_append_zeros (ds : List Char) (zeros : Nat) :
    valueOf (ds ++ List.replicate zeros '0') = valueOf ds * 10 ^ zeros := by
  rw [Decimal.valueOf_append, Decimal.valueOf_replicate_zero, List.length_replicate, Nat.add_zero]

/-- The point stands between the digits. -/
theorem padded_inside (negative : Bool) {c place : Nat} (hlength : (digits c).length ≤ 17)
    (hinside : place + 1 < (digits c).length) :
    Padded ⟨negative, (digits c).take (place + 1) ++
        List.replicate (place + 1 - (digits c).length) '0',
      some (pointDigits ((digits c).drop (place + 1))), none⟩ c place 0 := by
  obtain ⟨d, rest, hdrop⟩ : ∃ d rest, (digits c).drop (place + 1) = d :: rest :=
    List.exists_cons_of_ne_nil (by simpa using hinside)
  have hpoint : pointDigits ((digits c).drop (place + 1)) = (digits c).drop (place + 1) := by
    rw [hdrop]
    rfl
  rw [hpoint, Nat.sub_eq_zero_of_le hinside.le, List.replicate_zero, List.append_nil]
  refine ⟨?_, ?_, hlength⟩
  · rw [Numeral.significand, Option.getD_some, List.take_append_drop, Decimal.valueOf_digits,
      pow_zero, mul_one]
  · simp only [Numeral.power, Numeral.exponentPower, Option.getD_some, List.length_drop]
    omega

/-- The digits are filled up to the point, and a zero stands behind it. -/
theorem padded_behind (negative : Bool) {c place : Nat} (hplace : place ≤ 15)
    (hbehind : (digits c).length ≤ place + 1) :
    Padded ⟨negative, (digits c).take (place + 1) ++
        List.replicate (place + 1 - (digits c).length) '0',
      some (pointDigits ((digits c).drop (place + 1))), none⟩ c place
      (place + 2 - (digits c).length) := by
  have hpos := Decimal.length_digits_pos c
  have hcount : place + 1 - (digits c).length + 1 = place + 2 - (digits c).length := by omega
  rw [List.drop_eq_nil_of_le hbehind, List.take_of_length_le hbehind, pointDigits]
  refine ⟨?_, ?_, by omega⟩
  · rw [Numeral.significand, Option.getD_some, List.append_assoc, ← List.replicate_succ',
      valueOf_append_zeros, Decimal.valueOf_digits, hcount]
  · simp only [Numeral.power, Numeral.exponentPower, Option.getD_some, List.length_singleton]
    omega

/-- The point and zeros stand in front of the digits. -/
theorem padded_front (negative : Bool) {c : Nat} (place : Nat)
    (hlength : (digits c).length ≤ 17) :
    Padded ⟨negative, ['0'], some (List.replicate place '0' ++ digits c), none⟩ c
      (.negSucc place) 0 := by
  have hzero : valueOf ['0'] = 0 := rfl
  have hpos := Decimal.length_digits_pos c
  refine ⟨?_, ?_, hlength⟩
  · rw [Numeral.significand, Option.getD_some, Decimal.valueOf_append, Decimal.valueOf_append,
      Decimal.valueOf_replicate_zero, Decimal.valueOf_digits, hzero, zero_mul, zero_mul, zero_add,
      zero_add, pow_zero, mul_one]
  · simp only [Numeral.power, Numeral.exponentPower, Option.getD_some, List.length_append,
      List.length_replicate, Int.negSucc_eq]
    omega

/-- The point stands behind the first digit, and an exponent follows. -/
theorem padded_exponent (negative : Bool) {c : Nat} (leading : Int)
    (hlength : (digits c).length ≤ 17) :
    Padded ⟨negative, (digits c).take 1, mantissaDigits ((digits c).drop 1),
      some (decide (leading < 0), digits leading.natAbs)⟩ c leading 0 := by
  refine ⟨?_, ?_, hlength⟩
  · rw [Numeral.significand, getD_mantissaDigits, List.take_append_drop, Decimal.valueOf_digits,
      pow_zero, mul_one]
  · simp only [Numeral.power, Numeral.exponentPower, getD_mantissaDigits, List.length_drop,
      Decimal.valueOf_digits]
    by_cases hnegative : leading < 0
    · simp only [hnegative, decide_true, if_true]
      omega
    · simp only [hnegative, decide_false, Bool.false_eq_true, if_false]
      omega

theorem padded_layoutNumeral (negative : Bool) {c : Nat} {leading : Int}
    (hread : Readable c leading) :
    ∃ zeros, Padded (layoutNumeral negative (digits c) leading) c leading zeros := by
  have hlength := hread.length_digits_le
  unfold layoutNumeral
  by_cases hplain : -5 ≤ leading ∧ leading ≤ 15
  · rw [if_pos hplain]
    cases leading with
    | ofNat place =>
        rcases Nat.lt_or_ge (place + 1) (digits c).length with hinside | hbehind
        · exact ⟨0, padded_inside negative hlength hinside⟩
        · exact ⟨_, padded_behind negative (Int.ofNat_le.mp hplain.2) hbehind⟩
    | negSucc place => exact ⟨0, padded_front negative place hlength⟩
  · rw [if_neg hplain]
    exact ⟨0, padded_exponent negative leading hlength⟩

theorem Padded.significand_lt {numeral : Numeral} {c : Nat} {leading : Int} {zeros : Nat}
    (hpadded : Padded numeral c leading zeros) : numeral.significand < 10 ^ 17 := by
  have hc : valueOf (digits c) < 10 ^ (digits c).length :=
    Decimal.valueOf_lt fun d hd => Decimal.isDigit_of_mem_digits hd
  rw [Decimal.valueOf_digits] at hc
  rw [hpadded.significand]
  calc
    c * 10 ^ zeros < 10 ^ (digits c).length * 10 ^ zeros :=
      Nat.mul_lt_mul_of_pos_right hc (by positivity)
    _ = 10 ^ ((digits c).length + zeros) := (pow_add _ _ _).symm
    _ ≤ 10 ^ 17 := Nat.pow_le_pow_right (by omega) hpadded.length_le

/-- Zeros behind the digits change nothing. -/
theorem Padded.value_eq {numeral : Numeral} {decimal : Decimal.Scientific} {zeros count : Nat}
    (hpadded : Padded numeral decimal.coefficient decimal.leading zeros)
    (hdigits : decimal.HasDigits count) :
    (numeral.significand * 10 ^ numeral.power : ℚ) = decimal.value count := by
  rw [hpadded.significand, hpadded.power, hdigits.length_digits, Decimal.Scientific.value,
    zpow_sub₀ (by norm_num)]
  push_cast
  rw [zpow_natCast, mul_assoc, mul_div_cancel₀ _ (by positivity)]

theorem parts_layoutNumeral (negative : Bool) (ds : List Char) (leading : Int) :
    let numeral := layoutNumeral negative ds leading
    (numeral.fraction ≠ none ∧ numeral.exponent = none) ∨
      (numeral.fraction.getD [] = ds.drop 1 ∧
        numeral.exponent = some (decide (leading < 0), digits leading.natAbs)) := by
  intro numeral
  by_cases hplain : -5 ≤ leading ∧ leading ≤ 15
  · left
    unfold numeral layoutNumeral
    rw [if_pos hplain]
    cases leading <;> exact ⟨Option.some_ne_none _, rfl⟩
  · right
    unfold numeral layoutNumeral
    rw [if_neg hplain]
    exact ⟨getD_mantissaDigits _, rfl⟩

theorem value_layoutNumeral_eq (negative : Bool) {c : Nat} {leading : Int}
    (hread : Readable c leading) {zeros : Nat}
    (hpadded : Padded (layoutNumeral negative (digits c) leading) c leading zeros) :
    let numeral := layoutNumeral negative (digits c) leading
    numeral.value = numeral.scaledValue numeral.significand numeral.power := by
  intro numeral
  have hwell : numeral.WellFormed := wellFormed_layoutNumeral negative
    (fun d hd => Decimal.isDigit_of_mem_digits hd) hread.startsNumber
  have hsmall : numeral.significand < 10 ^ 17 := hpadded.significand_lt
  have hword : numeral.significand < 2 ^ 64 := by omega
  have hne : numeral.fraction ≠ some [] := fun hempty => (hwell.fraction [] hempty).1 rfl
  rcases parts_layoutNumeral negative (digits c) leading with
    ⟨hfraction, hexponent⟩ | ⟨hfraction, hexponent⟩
  · apply Numeral.value_eq_scaledValue (.inl hfraction) hne hword
    intro part hpart
    rw [hexponent] at hpart
    simp at hpart
  · apply Numeral.value_eq_scaledValue (.inr (by rw [hexponent]; simp)) hne hword
    intro part hpart
    rw [hexponent, Option.mem_some_iff] at hpart
    subst hpart
    have hbounds := hread.leading_bounds
    have hlength := hread.length_digits_le
    rw [hfraction, List.length_drop, Decimal.valueOf_digits]
    omega

theorem negative_layoutNumeral (negative : Bool) (ds : List Char) (leading : Int) :
    (layoutNumeral negative ds leading).negative = negative := by
  unfold layoutNumeral
  split_ifs
  · cases leading <;> rfl
  · rfl

/-! ## The double that is read -/

/-- The numeral written for a double, and the magnitude that is read from it. -/
structure Reads (x z : Binary64) (numeral : Numeral) : Prop where
  wellFormed : numeral.WellFormed
  text : floatText x = numeral.text
  scaled : scaleByTenPow? (Binary64.ofNat numeral.significand) numeral.power = some z
  signed : rereadFloat x = Binary64.signed x.isNegative z

theorem Numeral.scaledValue_eq_float {numeral : Numeral} {c : Nat} {power : Int} {y : Binary64}
    (hvalue : numeral.scaledValue c power = .ok (.float y)) :
    ∃ z, scaleByTenPow? (Binary64.ofNat c) power = some z ∧
      y = Binary64.signed numeral.negative z := by
  rw [scaledValue] at hvalue
  split at hvalue
  · rename_i z hz
    exact ⟨z, hz, (Value.float.inj (Except.ok.inj hvalue)).symm⟩
  · exact absurd hvalue (by simp)

theorem exists_reads {x : Binary64} {c : Nat} {leading : Int} (hread : Readable c leading)
    (htext : floatText x = Decimal.withSign x.isNegative (numberLayout.write (digits c) leading)) :
    ∃ z zeros numeral, Reads x z numeral ∧ Padded numeral c leading zeros := by
  obtain ⟨zeros, hpadded⟩ := padded_layoutNumeral x.isNegative hread
  have hne : digits c ≠ [] := List.ne_nil_of_length_pos (Decimal.length_digits_pos c)
  have hwell := wellFormed_layoutNumeral x.isNegative
    (fun d hd => Decimal.isDigit_of_mem_digits hd) hread.startsNumber
  rw [withSign_write x.isNegative hne] at htext
  obtain ⟨y, hy⟩ := value_layoutNumeral x.isNegative hread
  have hscaled := hy
  rw [value_layoutNumeral_eq x.isNegative hread hpadded] at hscaled
  obtain ⟨z, hz, hsigned⟩ := Numeral.scaledValue_eq_float hscaled
  rw [negative_layoutNumeral] at hsigned
  refine ⟨z, zeros, _, ⟨hwell, htext, hz, ?_⟩, hpadded⟩
  have halone := readNumber_text hwell hy endsNumber_nil
  rw [List.append_nil, ← htext] at halone
  simp only [rereadFloat, halone, hsigned]

theorem magnitude_of_isZero {x : Binary64} (hzero : x.isZero = true) :
    x.magnitude = Binary64.zero := by
  have hmod : x.word % 2 ^ 63 = 0 := by simpa [Binary64.isZero] using hzero
  rw [Binary64.magnitude, hmod]
  rfl

/-- What is known of the magnitude that is read for a double. -/
structure Close (x z : Binary64) (numeral : Numeral) : Prop where
  word_lt : z.word < infinityWord
  near : |(z.scaled : ℤ) - x.scaled| ≤ 7 * 2 ^ x.scale
  exact : Binary64.Representable numeral.significand → numeral.power.natAbs ≤ 22 → z = x.magnitude

/-- The units in which the error of reading is measured are those of the
double that was written. -/
theorem near_of_within {x z : Binary64} {v : ℚ} (hzero : x.isZero = false)
    (hv : Identifies v x) (hz : Within (51 / 10 / 2 ^ 53) (3 / 5 / unit) z.size v) :
    |(z.scaled : ℤ) - x.scaled| ≤ 7 * 2 ^ x.scale := by
  have hunit := Binary64.unit_posQ
  have hupper := hv.upper.1
  have hlower := (hv.lower hzero).1
  have hgap : Decimal.lowerGap x ≤ 1 / 2 := by
    unfold Decimal.lowerGap
    split_ifs <;> norm_num
  have hone : (1 : ℚ) ≤ 2 ^ x.scale := one_le_pow₀ (by norm_num)
  have hscaled : (x.scaled : ℚ) = x.significand * 2 ^ x.scale := by
    rw [Binary64.scaled]
    push_cast
    rfl
  have hlong : (x.significand + 1 / 2 : ℚ) * 2 ^ x.scale ≤ 2 ^ 53 * 2 ^ x.scale := by
    have hlt : (x.significand + 1 : ℚ) ≤ 2 ^ 53 := by exact_mod_cast Binary64.significand_lt x
    exact mul_le_mul_of_nonneg_right (by linarith) (by linarith)
  have hbelow : (x.significand - 1 / 2 : ℚ) * 2 ^ x.scale ≤ v * unit :=
    le_trans (mul_le_mul_of_nonneg_right (by linarith) (by linarith)) hlower
  have hdistance : |(z.scaled : ℚ) - v * unit| ≤ 51 / 10 / 2 ^ 53 * (v * unit) + 3 / 5 := by
    rw [← Binary64.size_mul_unit, ← sub_mul, abs_mul, abs_of_pos hunit]
    calc
      |z.size - v| * unit ≤ (51 / 10 / 2 ^ 53 * v + 3 / 5 / unit) * unit :=
        mul_le_mul_of_nonneg_right hz hunit.le
      _ = 51 / 10 / 2 ^ 53 * (v * unit) + 3 / 5 := by
        rw [add_mul, div_mul_cancel₀ _ hunit.ne', mul_assoc]
  have hnear : |(z.scaled : ℚ) - x.scaled| ≤ 7 * 2 ^ x.scale := by
    obtain ⟨hleft, hright⟩ := abs_le.mp hdistance
    rw [hscaled, abs_le]
    constructor
    · linarith
    · linarith
  exact_mod_cast hnear

theorem exists_close_of_isZero {x : Binary64} (hzero : x.isZero = true) :
    ∃ z numeral, Reads x z numeral ∧ Close x z numeral := by
  have htext : floatText x =
      Decimal.withSign x.isNegative (numberLayout.write (digits 0) 0) := by
    rw [floatText, hzero, Decimal.digits_of_lt (by omega)]
    rfl
  obtain ⟨z, zeros, numeral, hreads, hpadded⟩ := exists_reads readable_zero htext
  have hz : z = Binary64.zero := by
    have hscaled := hreads.scaled
    rw [hpadded.significand, zero_mul, Binary64.ofNat, ofRatio_zero, scaleByTenPow?_zero] at hscaled
    exact (Option.some.inj hscaled).symm
  have hmagnitude : z = x.magnitude := hz.trans (magnitude_of_isZero hzero).symm
  refine ⟨z, numeral, hreads, ?_, ?_, fun _ _ => hmagnitude⟩
  · rw [hz]
    decide
  · rw [hmagnitude, Binary64.scaled_magnitude, sub_self, abs_zero]
    positivity

theorem exists_close_of_pos {x : Binary64} (hfinite : x.isFinite = true)
    (hzero : x.isZero = false) : ∃ z numeral, Reads x z numeral ∧ Close x z numeral := by
  have hread := readable_shortest hfinite hzero
  have htext : floatText x = Decimal.withSign x.isNegative
      (numberLayout.write (digits (Decimal.shortest x).coefficient)
        (Decimal.shortest x).leading) := by
    rw [floatText, hzero, if_neg Bool.false_ne_true]
  obtain ⟨z, zeros, numeral, hreads, hpadded⟩ := exists_reads hread htext
  obtain ⟨count, hdigits, hidentifies⟩ := Decimal.identifies_shortest hzero
  rw [← hpadded.value_eq hdigits] at hidentifies
  have hpos : 0 < numeral.significand := by
    rw [hpadded.significand]
    exact Nat.mul_pos hdigits.coefficient_pos (by positivity)
  have hsmall : numeral.significand < overflowBound :=
    Decimal.overflowBound_gt (hpadded.significand_lt.le.trans
      (Nat.pow_le_pow_right (by omega) (by omega)))
  have hpower : -616 ≤ numeral.power := by
    have hbounds := hread.leading_bounds
    have hlength := hpadded.length_le
    rw [hpadded.power]
    omega
  obtain ⟨hword, hwithin⟩ := within_scaleByTenPow? hpos hsmall hpower hreads.scaled
  refine ⟨z, numeral, hreads, hword, near_of_within hzero hidentifies hwithin, ?_⟩
  intro hexact hten
  obtain ⟨num, den, hden, hratio, rfl⟩ :=
    scaleByTenPow?_exact hexact hsmall hten hreads.scaled
  rw [← hratio] at hidentifies
  exact Decimal.ofRatio_of_identifies hfinite hzero hden hidentifies

theorem exists_close {x : Binary64} (hfinite : x.isFinite = true) :
    ∃ z numeral, Reads x z numeral ∧ Close x z numeral := by
  cases hzero : x.isZero with
  | true => exact exists_close_of_isZero hzero
  | false => exact exists_close_of_pos hfinite hzero

end Json

open Interchange (reread restored)

/-- A finite double is written as a numeral and comes back as a finite double
with the same sign, a few units of its last place away at most.  It comes back
exactly if the digits of the numeral are a number of fifty-three bits and the
power of ten they are scaled by is one too. -/
theorem parse_serialize_double {x : Binary64} (hfinite : x.isFinite = true) (pretty : Bool) :
    ∃ (text : String) (y : Binary64) (numeral : Json.Numeral),
      (jsonFormat pretty).serialize (.double x) = .ok text ∧
      (jsonFormat pretty).parse text = .ok (.double y) ∧
      y.isFinite = true ∧ y.isNegative = x.isNegative ∧
      |(y.scaled : ℤ) - x.scaled| ≤ 7 * 2 ^ x.scale ∧
      numeral.WellFormed ∧ Json.floatText x = numeral.text ∧
      (Binary64.Representable numeral.significand → numeral.power.natAbs ≤ 22 → y = x) := by
  obtain ⟨z, numeral, hreads, hclose⟩ := Json.exists_close hfinite
  have hinfinity : Binary64.infinityWord = 2047 * 2 ^ 52 := rfl
  have hword : z.word < 2 ^ 63 := by
    have hlt := hclose.word_lt
    omega
  have hy : reread x = Binary64.signed x.isNegative z := by
    rw [Interchange.reread_eq_restored, restored, hfinite, if_pos rfl]
    exact hreads.signed
  refine ⟨Interchange.write (styleOf pretty) (.double x), reread x, numeral, rfl, ?_, ?_, ?_, ?_,
    hreads.wellFormed, hreads.text, ?_⟩
  · simp only [jsonFormat, parseJson, Interchange.read_write_double, Except.mapError]
  · rw [hy, Binary64.isFinite_signed _ hword]
    exact Binary64.isFinite_of_word_lt hclose.word_lt
  · rw [hy, Binary64.isNegative_signed _ hword]
  · rw [hy, Binary64.scaled_signed _ hword]
    exact hclose.near
  · intro hexact hten
    rw [hy, hclose.exact hexact hten, Binary64.signed_magnitude]

theorem parse_serialize_double_negative :
    ∃ text, (jsonFormat false).serialize (.double (Binary64.ofWord 0xC059200000000000)) =
        .ok text ∧
      (jsonFormat false).parse text = .ok (.double (Binary64.ofWord 0xC059200000000000)) := by
  obtain ⟨text, y, numeral, htext, hparse, -, -, -, hwell, hnumeral, hexact⟩ :=
    @parse_serialize_double (Binary64.ofWord 0xC059200000000000) (by decide +kernel) false
  have hshown : Json.floatText (Binary64.ofWord 0xC059200000000000) =
      (⟨true, ['1', '0', '0'], some ['5'], none⟩ : Json.Numeral).text := by decide +kernel
  have heq : numeral = ⟨true, ['1', '0', '0'], some ['5'], none⟩ := by
    apply hwell.eq_of_text_eq _ (hnumeral.symm.trans hshown)
    refine ⟨by simp [isDigit], .inr ⟨'1', ['0', '0'], rfl, by decide⟩, ?_, by simp⟩
    intro ds hds
    obtain rfl := Option.mem_some_iff.mp hds
    simp [isDigit]
  have hy : y = Binary64.ofWord 0xC059200000000000 := by
    subst heq
    exact hexact (Binary64.representable_of_lt (by decide)) (by decide)
  exact ⟨text, htext, hy ▸ hparse⟩

/-- The greatest odd number that is a double comes back as the even one below
it: with the zero behind the point its digits are longer than a significand. -/
theorem parse_serialize_double_inexact :
    (jsonFormat false).serialize (.double (Binary64.ofWord 0x433FFFFFFFFFFFFF)) =
        .ok "\x7b\"kind\":\"double\",\"value\":9007199254740991.0\x7d" ∧
      (jsonFormat false).parse "\x7b\"kind\":\"double\",\"value\":9007199254740991.0\x7d" =
        .ok (.double (Binary64.ofWord 0x433FFFFFFFFFFFFE)) ∧
      Binary64.ofWord 0x433FFFFFFFFFFFFF ≠ Binary64.ofWord 0x433FFFFFFFFFFFFE := by
  have htext : Interchange.write .compact (.double (Binary64.ofWord 0x433FFFFFFFFFFFFF)) =
      "\x7b\"kind\":\"double\",\"value\":9007199254740991.0\x7d" := by decide +kernel
  have hreread : reread (Binary64.ofWord 0x433FFFFFFFFFFFFF) =
      Binary64.ofWord 0x433FFFFFFFFFFFFE := by
    rw [Interchange.reread_eq_restored]
    decide +kernel
  refine ⟨congrArg Except.ok htext, ?_, by decide⟩
  rw [← htext, ← hreread]
  simp only [jsonFormat, parseJson, Interchange.read_write_double, Except.mapError]

end SyntaxDump

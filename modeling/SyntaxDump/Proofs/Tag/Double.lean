import SyntaxDump.Proofs.Decimal.Nearest
import SyntaxDump.Proofs.Json.Number
import SyntaxDump.Tag.Literal

/-!
# The text of a double

A finite double is rounded to six digits, and rounded again if its text has no
exponent.  The second rounding has the same last digit as the first one, also
where the first one carries into the next power of ten, so both find the same
coefficient.  The text is therefore that of one decimal, laid out with a number
of decimal places that depends on the power of its first digit.  Zeros are taken
off behind the point only: the whole part stays, and the value with it.
-/

namespace SyntaxDump

open Decimal (isDigit valueOf digits dropTrailingZeros Scientific IsNearest)
open Json (Numeral fractionText exponentText mantissaDigits)

/-! ## Values -/

def signFactor (negative : Bool) : ℚ := if negative then -1 else 1

/-- The number that a finite double stands for. -/
def Binary64.rational (x : Binary64) : ℚ :=
  signFactor x.isNegative * (x.scaled / Binary64.unit)

namespace Json.Numeral

def exponentPower : Option (Bool × List Char) → ℤ
  | none => 0
  | some (negative, digits) => if negative then -valueOf digits else valueOf digits

/-- The number that a numeral stands for. -/
def rational (numeral : Numeral) : ℚ :=
  let places := numeral.fraction.getD []
  signFactor numeral.negative * valueOf (numeral.whole ++ places) *
    10 ^ (exponentPower numeral.exponent - places.length)

theorem WellFormed.eq_of_text_eq {numeral other : Numeral} (hnumeral : numeral.WellFormed)
    (hother : other.WellFormed) (heq : numeral.text = other.text) : numeral = other := by
  have hread := readNumeral_text hnumeral endsNumber_nil
  have hread' := readNumeral_text hother endsNumber_nil
  rw [heq, hread', Except.ok.injEq, Prod.mk.injEq] at hread
  exact hread.1.symm

end Json.Numeral

namespace Binary64

theorem magnitude_pos {x : Binary64} (hzero : x.isZero = false) :
    (0 : ℚ) < x.scaled / unit := by
  have hscaled : (0 : ℚ) < x.scaled := by exact_mod_cast scaled_pos hzero
  have hunit : (0 : ℚ) < unit := by exact_mod_cast unit_pos
  exact div_pos hscaled hunit

theorem abs_rational (x : Binary64) : |x.rational| = x.scaled / unit := by
  have hnonneg : (0 : ℚ) ≤ x.scaled / unit := by positivity
  unfold rational signFactor
  generalize (x.scaled / unit : ℚ) = magnitude at hnonneg
  cases x.isNegative with
  | true => simp [abs_of_nonneg hnonneg]
  | false => simp [abs_of_nonneg hnonneg]

theorem rational_neg_iff {x : Binary64} (hzero : x.isZero = false) :
    x.rational < 0 ↔ x.isNegative = true := by
  have hpos := magnitude_pos hzero
  unfold rational signFactor
  generalize (x.scaled / unit : ℚ) = magnitude at hpos
  cases x.isNegative with
  | true => simpa using hpos
  | false => simpa using hpos.le

end Binary64

/-! ## Digits with zeros around them -/

namespace Decimal

theorem eq_dropTrailingZeros_append (ds : List Char) :
    ∃ count, ds = dropTrailingZeros ds ++ List.replicate count '0' := by
  obtain ⟨zeros, hzeros⟩ : ∃ zs, ds.reverse.takeWhile (· == '0') = zs := ⟨_, rfl⟩
  refine ⟨zeros.length, ?_⟩
  have hsplit := congrArg List.reverse
    (List.takeWhile_append_dropWhile (p := (· == '0')) (l := ds.reverse))
  rw [List.reverse_append, List.reverse_reverse, hzeros] at hsplit
  have hreplicate : zeros = List.replicate zeros.length '0' := by
    apply List.eq_replicate_of_mem
    intro c hc
    rw [← hzeros] at hc
    simpa using List.all_eq_true.mp List.all_takeWhile c hc
  rw [hreplicate, List.reverse_replicate] at hsplit
  exact hsplit.symm

theorem mem_of_mem_dropTrailingZeros {c : Char} {ds : List Char}
    (hc : c ∈ dropTrailingZeros ds) : c ∈ ds := by
  obtain ⟨count, hsplit⟩ := eq_dropTrailingZeros_append ds
  rw [hsplit]
  exact List.mem_append_left _ hc

theorem getLast?_dropTrailingZeros (ds : List Char) :
    (dropTrailingZeros ds).getLast? ≠ some '0' := by
  unfold dropTrailingZeros
  rw [List.getLast?_reverse]
  intro hhead
  have hnot := List.head?_dropWhile_not (· == '0') ds.reverse
  rw [hhead] at hnot
  simp at hnot

end Decimal

namespace Tag

theorem isDigit_of_mem_zeroPadded {width n : Nat} {c : Char} (hc : c ∈ zeroPadded width n) :
    isDigit c = true := by
  rcases List.mem_append.mp hc with hfill | hdigit
  · rw [List.eq_of_mem_replicate hfill]
    decide
  · exact Decimal.isDigit_of_mem_digits hdigit

theorem valueOf_zeroPadded (width n : Nat) : valueOf (zeroPadded width n) = n := by
  simp [zeroPadded, Decimal.valueOf_append, Decimal.valueOf_replicate_zero]

theorem length_zeroPadded (width n : Nat) :
    (zeroPadded width n).length = max width (digits n).length := by
  simp only [zeroPadded, List.length_append, List.length_replicate]
  omega

/-! ## The numeral of a decimal -/

/-- The numeral of a number of units of the last of `places` decimal places. -/
def placesNumeral (negative : Bool) (places n : Nat) (exponent : Option (Bool × List Char)) :
    Numeral :=
  let digits := zeroPadded (places + 1) n
  let whole := digits.length - places
  ⟨negative, digits.take whole, mantissaDigits (dropTrailingZeros (digits.drop whole)), exponent⟩

theorem mem_mantissaDigits {ds cs : List Char} (hds : ds ∈ mantissaDigits cs) :
    ds ≠ [] ∧ ds = cs := by
  cases cs with
  | nil => simp [mantissaDigits] at hds
  | cons c rest =>
      obtain rfl : c :: rest = ds := by simpa [mantissaDigits] using hds
      exact ⟨by simp, rfl⟩

theorem withSign_append (negative : Bool) (front back : List Char) :
    Decimal.withSign negative (front ++ back) = Decimal.withSign negative front ++ back := by
  cases negative with
  | true => rfl
  | false => rfl

theorem dropWhile_append_cons {p : Char → Bool} {c : Char} (hc : p c = false)
    (front back : List Char) :
    (front ++ c :: back).dropWhile p = front.dropWhile p ++ c :: back := by
  rw [List.dropWhile_append]
  split
  · rename_i hempty
    rw [List.isEmpty_iff.mp hempty]
    simp [hc]
  · rfl

theorem stripTrailingZeros_point {front back : List Char} (hfront : '.' ∉ front)
    (hback : '.' ∉ back) :
    stripTrailingZeros (front ++ '.' :: back) =
      front ++ fractionText (mantissaDigits (dropTrailingZeros back)) := by
  -- the point stops the zeros, so none is taken off in front of it
  have hzeros : dropTrailingZeros (front ++ '.' :: back) =
      front ++ '.' :: dropTrailingZeros back := by
    unfold dropTrailingZeros
    rw [List.reverse_append, List.reverse_cons, List.append_assoc, List.singleton_append,
      dropWhile_append_cons (by decide)]
    simp
  have hstays : ∀ cs : List Char, '.' ∉ cs → cs.dropWhile (· == '.') = cs := by
    intro cs hcs
    cases cs with
    | nil => rfl
    | cons c rest =>
        rw [List.dropWhile_cons_of_neg]
        simp only [beq_iff_eq]
        rintro rfl
        exact hcs (by simp)
  rw [stripTrailingZeros, if_pos (by simp), hzeros, List.reverse_append, List.reverse_cons]
  obtain ⟨count, hsplit⟩ := Decimal.eq_dropTrailingZeros_append back
  cases hkept : dropTrailingZeros back with
  | nil =>
      rw [List.reverse_nil, List.nil_append, List.singleton_append,
        List.dropWhile_cons_of_pos (by decide), hstays _ (by simpa using hfront)]
      simp [mantissaDigits, fractionText]
  | cons d rest =>
      rw [hkept] at hsplit
      have hnone : '.' ∉ (d :: rest).reverse := by
        intro hmem
        apply hback
        rw [hsplit]
        exact List.mem_append_left _ (List.mem_reverse.mp hmem)
      rw [List.append_assoc, List.dropWhile_append, hstays _ hnone, if_neg (by simp)]
      simp [mantissaDigits, fractionText]

section Places

variable (negative : Bool) (places n : Nat) (exponent : Option (Bool × List Char))

theorem text_placesNumeral :
    (placesNumeral negative places n exponent).text =
      stripTrailingZeros (Decimal.withSign negative (placesText places n)) ++
        exponentText exponent := by
  have hpoint : '.' ∉ zeroPadded (places + 1) n := by
    intro hmem
    exact absurd (isDigit_of_mem_zeroPadded hmem) (by decide)
  have hsign : ∀ cs : List Char, '.' ∉ cs → '.' ∉ Decimal.withSign negative cs := by
    intro cs hcs
    cases negative with
    | true => simpa [Decimal.withSign] using hcs
    | false => exact hcs
  have hmantissa : stripTrailingZeros (Decimal.withSign negative (placesText places n)) =
      Decimal.withSign negative (placesNumeral negative places n exponent).whole ++
        fractionText (placesNumeral negative places n exponent).fraction := by
    unfold placesText placesNumeral
    dsimp only
    by_cases hplaces : places = 0
    · subst hplaces
      rw [if_pos rfl, stripTrailingZeros, if_neg (hsign _ hpoint), Nat.sub_zero,
        List.take_length, List.drop_length]
      simp [dropTrailingZeros, mantissaDigits, fractionText]
    · rw [if_neg hplaces, withSign_append, stripTrailingZeros_point]
      · exact hsign _ fun hmem => hpoint (List.mem_of_mem_take hmem)
      · exact fun hmem => hpoint (List.mem_of_mem_drop hmem)
  rw [hmantissa, Numeral.text, withSign_append, ← List.append_assoc]
  rfl

theorem rational_placesNumeral :
    (placesNumeral negative places n exponent).rational =
      signFactor negative * n * 10 ^ (Numeral.exponentPower exponent - places) := by
  unfold Numeral.rational placesNumeral
  dsimp only
  rw [Json.getD_mantissaDigits]
  obtain ⟨ds, hds⟩ : ∃ ds, zeroPadded (places + 1) n = ds := ⟨_, rfl⟩
  have hlength := length_zeroPadded (places + 1) n
  have hvalue := valueOf_zeroPadded (places + 1) n
  rw [hds] at hlength hvalue ⊢
  obtain ⟨count, hzeros⟩ :=
    Decimal.eq_dropTrailingZeros_append (ds.drop (ds.length - places))
  generalize dropTrailingZeros (ds.drop (ds.length - places)) = kept at hzeros
  have hplaces : places = kept.length + count := by
    have hcount := congrArg List.length hzeros
    simp only [List.length_drop, List.length_append, List.length_replicate] at hcount
    omega
  -- the zeros that are gone are made up for by the power of ten
  have hscaled : n = valueOf (ds.take (ds.length - places) ++ kept) * 10 ^ count := by
    rw [← List.take_append_drop (ds.length - places) ds, hzeros, ← List.append_assoc,
      Decimal.valueOf_append, Decimal.valueOf_replicate_zero, List.length_replicate,
      add_zero] at hvalue
    exact hvalue.symm
  have hpower : (10 : ℚ) ^ (Numeral.exponentPower exponent - kept.length) =
      10 ^ count * 10 ^ (Numeral.exponentPower exponent - places) := by
    rw [← zpow_natCast, ← zpow_add₀ (by norm_num), hplaces]
    congr 1
    push_cast
    ring
  rw [hpower]
  generalize valueOf (ds.take (ds.length - places) ++ kept) = front at hscaled
  rw [hscaled]
  push_cast
  ring

theorem wellFormed_placesNumeral (hn : 0 < n)
    (hexponent : ∀ part ∈ exponent, part.2 ≠ [] ∧ ∀ c ∈ part.2, isDigit c = true) :
    (placesNumeral negative places n exponent).WellFormed where
  whole c hc := isDigit_of_mem_zeroPadded (List.mem_of_mem_take hc)
  first := by
    unfold placesNumeral
    dsimp only
    rw [length_zeroPadded]
    by_cases hlong : places < (digits n).length
    · obtain ⟨c, rest, hcons, hne, -, -⟩ := Decimal.digits_eq_cons hn
      have hpadded : zeroPadded (places + 1) n = c :: rest := by
        unfold zeroPadded
        dsimp only
        rw [Nat.sub_eq_zero_of_le hlong, hcons]
        rfl
      obtain ⟨k, hk⟩ : ∃ k, max (places + 1) (digits n).length - places = k + 1 :=
        ⟨max (places + 1) (digits n).length - places - 1, by omega⟩
      rw [hpadded, hk]
      exact .inr ⟨c, rest.take k, rfl, hne⟩
    · have hone : max (places + 1) (digits n).length - places = 1 := by omega
      obtain ⟨k, hk⟩ : ∃ k, places + 1 - (digits n).length = k + 1 :=
        ⟨places - (digits n).length, by omega⟩
      rw [hone, zeroPadded, hk]
      exact .inl rfl
  fraction ds hds := by
    obtain ⟨hne, rfl⟩ := mem_mantissaDigits hds
    refine ⟨hne, fun c hc => ?_⟩
    exact isDigit_of_mem_zeroPadded
      (List.mem_of_mem_drop (Decimal.mem_of_mem_dropTrailingZeros hc))
  exponent := hexponent

theorem getLast?_placesNumeral {ds : List Char}
    (hds : ds ∈ (placesNumeral negative places n exponent).fraction) :
    ds.getLast? ≠ some '0' := by
  obtain ⟨-, rfl⟩ := mem_mantissaDigits hds
  exact Decimal.getLast?_dropTrailingZeros _

end Places

/-! ## Two roundings, one decimal -/

def generalNumeral (negative : Bool) (decimal : Scientific) : Numeral :=
  if decimal.leading < -4 ∨ 6 ≤ decimal.leading then
    placesNumeral negative 5 decimal.coefficient
      (some (decide (decimal.leading < 0), zeroPadded 2 decimal.leading.natAbs))
  else placesNumeral negative (5 - decimal.leading).toNat decimal.coefficient none

/-- The form in which a decimal of six digits is written. -/
structure IsGeneralForm (decimal : Scientific) (numeral : Numeral) : Prop where
  wellFormed : numeral.WellFormed
  hasExponent_iff : numeral.exponent.isSome = true ↔ decimal.leading < -4 ∨ 6 ≤ decimal.leading
  scientific : ∀ part ∈ numeral.exponent, numeral.whole.length = 1 ∧ 2 ≤ part.2.length
  trimmed : ∀ places ∈ numeral.fraction, places.getLast? ≠ some '0'

theorem exponentText_leading (leading : Int) :
    exponentText (some (decide (leading < 0), zeroPadded 2 leading.natAbs)) =
      'e' :: exponentDigits leading := by
  simp [exponentText, exponentDigits]

theorem exponentPower_leading (leading : Int) :
    Numeral.exponentPower (some (decide (leading < 0), zeroPadded 2 leading.natAbs)) =
      leading := by
  simp only [Numeral.exponentPower, valueOf_zeroPadded, decide_eq_true_eq]
  split <;> omega

theorem generalText_eq_text {x : Binary64} (hzero : x.isZero = false) :
    generalText x =
      (generalNumeral x.isNegative (Decimal.nearest 6 x.scaled Binary64.unit)).text := by
  -- without an exponent the places of both roundings end at the same digit
  have hagree := @Decimal.nearestEven_places x.scaled Binary64.unit (Binary64.scaled_pos hzero)
    Binary64.unit_pos 6 (by omega)
  unfold generalText generalNumeral significantDigits
  generalize Binary64.unit = unit at hagree ⊢
  generalize Decimal.nearest 6 x.scaled unit = decimal at hagree ⊢
  dsimp only
  by_cases hexponent : decimal.leading < -4 ∨ 6 ≤ decimal.leading
  · rw [if_pos hexponent, text_placesNumeral, exponentText_leading]
    exact if_pos hexponent
  · have hunits := @hagree (5 - decimal.leading).toNat (by omega)
    rw [if_neg hexponent, text_placesNumeral, exponentText, List.append_nil, ← hunits]
    exact if_neg hexponent

theorem rational_generalNumeral (negative : Bool) (decimal : Scientific) :
    (generalNumeral negative decimal).rational = signFactor negative * decimal.value 6 := by
  unfold generalNumeral
  rw [Scientific.value, ← mul_assoc]
  by_cases hexponent : decimal.leading < -4 ∨ 6 ≤ decimal.leading
  · rw [if_pos hexponent, rational_placesNumeral, exponentPower_leading]
  · rw [if_neg hexponent, rational_placesNumeral, Numeral.exponentPower,
      Int.toNat_of_nonneg (by omega)]
    congr 2
    norm_num

theorem isGeneralForm_generalNumeral (negative : Bool) {decimal : Scientific}
    (hdigits : decimal.HasDigits 6) :
    IsGeneralForm decimal (generalNumeral negative decimal) := by
  have hpos := hdigits.coefficient_pos
  have hlength := hdigits.length_digits
  unfold generalNumeral
  by_cases hexponent : decimal.leading < -4 ∨ 6 ≤ decimal.leading
  · have htwo : 2 ≤ (zeroPadded 2 decimal.leading.natAbs).length := by
      rw [length_zeroPadded]
      exact le_max_left _ _
    rw [if_pos hexponent]
    refine ⟨wellFormed_placesNumeral _ _ _ _ hpos ?_, ?_, ?_, ?_⟩
    · intro part hpart
      obtain rfl := Option.mem_some_iff.mp hpart
      refine ⟨List.ne_nil_of_length_pos (lt_of_lt_of_le (by omega) htwo), ?_⟩
      exact fun c hc => isDigit_of_mem_zeroPadded hc
    · simpa [placesNumeral] using hexponent
    · intro part hpart
      obtain rfl := Option.mem_some_iff.mp hpart
      refine ⟨?_, htwo⟩
      simp only [placesNumeral, List.length_take, length_zeroPadded, hlength]
      rfl
    · exact fun places hplaces => getLast?_placesNumeral _ _ _ _ hplaces
  · rw [if_neg hexponent]
    refine ⟨wellFormed_placesNumeral _ _ _ _ hpos (by simp), ?_, ?_, ?_⟩
    · simpa [placesNumeral] using hexponent
    · intro part hpart
      simp [placesNumeral] at hpart
    · exact fun places hplaces => getLast?_placesNumeral _ _ _ _ hplaces

theorem doubleText_eq_generalText {x : Binary64} (hfinite : x.isFinite = true)
    (hzero : x.isZero = false) : (doubleText x).toList = generalText x := by
  simp [doubleText, Binary64.isNaN, Binary64.isInfinite, hfinite, hzero]

theorem negative_generalNumeral (negative : Bool) (decimal : Scientific) :
    (generalNumeral negative decimal).negative = negative := by
  unfold generalNumeral
  split
  · rfl
  · rfl

theorem head?_text {numeral : Numeral} (hnumeral : numeral.WellFormed) :
    numeral.text.head? = some '-' ↔ numeral.negative = true := by
  unfold Numeral.text
  cases numeral.negative with
  | true => simp [Decimal.withSign]
  | false =>
      have hfirst : ∃ c rest, numeral.whole = c :: rest := by
        rcases hnumeral.first with hzero | ⟨c, rest, hcons, -⟩
        · exact ⟨_, _, hzero⟩
        · exact ⟨_, _, hcons⟩
      obtain ⟨c, rest, hcons⟩ := hfirst
      have hne : c ≠ '-' := by
        rintro rfl
        exact absurd (hnumeral.whole '-' (by simp [hcons])) (by decide)
      simp [Decimal.withSign, hcons, hne]

/-- Every finite double other than zero is shown as the decimal of six digits
nearest to it.  The decimal is unique, and so is the numeral that the text is
read as. -/
theorem doubleText_isNearest {x : Binary64} (hfinite : x.isFinite = true)
    (hzero : x.isZero = false) :
    ∃ decimal numeral,
      IsNearest 6 |x.rational| decimal ∧
      (∀ other, IsNearest 6 |x.rational| other → other = decimal) ∧
      (doubleText x).toList = numeral.text ∧
      (∀ other : Numeral, other.WellFormed → (doubleText x).toList = other.text →
        other = numeral) ∧
      ((doubleText x).toList.head? = some '-' ↔ x.rational < 0) ∧
      numeral.rational = (if x.rational < 0 then -1 else 1) * decimal.value 6 ∧
      IsGeneralForm decimal numeral := by
  obtain ⟨k, hgrid⟩ := @Decimal.fromGrid_nearest x.scaled Binary64.unit
    (Binary64.scaled_pos hzero) Binary64.unit_pos 6 (by omega)
  have hform := isGeneralForm_generalNumeral x.isNegative hgrid.hasDigits
  have htext : (doubleText x).toList = _ :=
    (doubleText_eq_generalText hfinite hzero).trans (generalText_eq_text hzero)
  refine ⟨_, _, ?_, ?_, htext, ?_, ?_, ?_, hform⟩
  · rw [Binary64.abs_rational]
    exact hgrid.isNearest
  · rw [Binary64.abs_rational]
    exact fun other hother => hgrid.unique hother
  · intro other hother heq
    exact hother.eq_of_text_eq hform.wellFormed (heq.symm.trans htext)
  · rw [htext, head?_text hform.wellFormed, negative_generalNumeral,
      Binary64.rational_neg_iff hzero]
  · rw [rational_generalNumeral, signFactor]
    simp only [Binary64.rational_neg_iff hzero]

/-- Half way between 999999 and the next power of ten, the even coefficient is
the one that carries. -/
theorem doubleText_isNearest_carry :
    doubleText (Binary64.ofWord 0x412E847F00000000) = "1e+06" ∧
      ∃ decimal numeral,
        IsNearest 6 |(Binary64.ofWord 0x412E847F00000000).rational| decimal ∧
          numeral.text = "1e+06".toList ∧ IsGeneralForm decimal numeral := by
  have hshown : doubleText (Binary64.ofWord 0x412E847F00000000) = "1e+06" := by decide +kernel
  obtain ⟨decimal, numeral, hnearest, -, htext, -, -, -, hform⟩ :=
    @doubleText_isNearest (Binary64.ofWord 0x412E847F00000000) (by decide +kernel)
      (by decide +kernel)
  exact ⟨hshown, decimal, numeral, hnearest, by rw [← htext, hshown], hform⟩

end Tag
end SyntaxDump

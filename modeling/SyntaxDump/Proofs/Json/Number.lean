import Mathlib.Tactic
import SyntaxDump.Json.Reader
import SyntaxDump.Proofs.Decimal.Digits
import SyntaxDump.Proofs.Decimal.Shortest
import SyntaxDump.Proofs.Json.Value

/-!
# Numbers are read back

A numeral that follows the grammar is read back part by part, whatever follows
it, as long as what follows does not continue it.  Whole numbers of 64 bits
come back exactly.  The text of a finite double comes back as some double, so
reading what was written never fails, although the double may differ in its
last bits.
-/

namespace SyntaxDump
namespace Json

open Decimal (isDigit valueOf digits)

/-! ## Digits in front of something else -/

/-- The text behind a number does not continue it. -/
def EndsNumber (rest : List Char) : Prop :=
  ∀ c ∈ rest.head?, isDigit c = false ∧ c ≠ '.' ∧ c ≠ 'e' ∧ c ≠ 'E'

theorem endsNumber_nil : EndsNumber [] := by
  intro c hc
  simp at hc

theorem endsNumber_cons {c : Char} {rest : List Char}
    (hc : isDigit c = false ∧ c ≠ '.' ∧ c ≠ 'e' ∧ c ≠ 'E') :
    EndsNumber (c :: rest) := by
  intro d hd
  simp only [List.head?_cons, Option.mem_def, Option.some.injEq] at hd
  subst d
  exact hc

theorem spanDigits_append {front rest : List Char}
    (hfront : ∀ c ∈ front, isDigit c = true)
    (hrest : ∀ c ∈ rest.head?, isDigit c = false) :
    spanDigits (front ++ rest) = (front, rest) := by
  have hnone : rest.takeWhile isDigit = [] ∧ rest.dropWhile isDigit = rest := by
    cases rest with
    | nil => simp
    | cons c rest =>
        have hc : isDigit c = false := hrest c (by simp)
        simp [hc]
  rw [spanDigits, List.takeWhile_append_of_pos hfront, List.dropWhile_append_of_pos hfront,
    hnone.1, hnone.2, List.append_nil]

/-! ## The parts of a numeral -/

def fractionText : Option (List Char) → List Char
  | none => []
  | some digits => '.' :: digits

def exponentText : Option (Bool × List Char) → List Char
  | none => []
  | some (negative, digits) => 'e' :: (if negative then '-' else '+') :: digits

namespace Numeral

def text (numeral : Numeral) : List Char :=
  Decimal.withSign numeral.negative
    (numeral.whole ++ (fractionText numeral.fraction ++ exponentText numeral.exponent))

structure WellFormed (numeral : Numeral) : Prop where
  whole : ∀ c ∈ numeral.whole, isDigit c = true
  first : numeral.whole = ['0'] ∨ ∃ c rest, numeral.whole = c :: rest ∧ c ≠ '0'
  fraction : ∀ digits ∈ numeral.fraction, digits ≠ [] ∧ ∀ c ∈ digits, isDigit c = true
  exponent : ∀ part ∈ numeral.exponent, part.2 ≠ [] ∧ ∀ c ∈ part.2, isDigit c = true

end Numeral

theorem readWhole_append {whole rest : List Char}
    (hdigits : ∀ c ∈ whole, isDigit c = true)
    (hfirst : whole = ['0'] ∨ ∃ c tail, whole = c :: tail ∧ c ≠ '0')
    (hrest : ∀ c ∈ rest.head?, isDigit c = false) :
    readWhole (whole ++ rest) = .ok (whole, rest) := by
  rcases hfirst with hzero | ⟨c, tail, hcons, hne⟩
  · subst hzero
    cases rest with
    | nil => rfl
    | cons d rest =>
        have hd : isDigit d = false := hrest d (by simp)
        simp [readWhole, hd]
  · subst hcons
    have hc : isDigit c = true := hdigits c (by simp)
    have hspan : spanDigits (tail ++ rest) = (tail, rest) :=
      spanDigits_append (fun d hd => hdigits d (by simp [hd])) hrest
    simp [readWhole, hne, hc, hspan]

theorem readFraction_append {fraction : Option (List Char)} {rest : List Char}
    (hfraction : ∀ digits ∈ fraction, digits ≠ [] ∧ ∀ c ∈ digits, isDigit c = true)
    (hrest : ∀ c ∈ rest.head?, isDigit c = false ∧ c ≠ '.') :
    readFraction (fractionText fraction ++ rest) = .ok (fraction, rest) := by
  cases fraction with
  | none =>
      cases rest with
      | nil => rfl
      | cons c rest =>
          have hc : c ≠ '.' := (hrest c (by simp)).2
          simp [fractionText, readFraction, hc]
  | some digits =>
      obtain ⟨hne, hdigits⟩ := hfraction digits rfl
      have hspan : spanDigits (digits ++ rest) = (digits, rest) :=
        spanDigits_append hdigits fun c hc => (hrest c hc).1
      obtain ⟨d, tail, rfl⟩ := List.exists_cons_of_ne_nil hne
      simp only [fractionText, List.cons_append, readFraction]
      rw [← List.cons_append, hspan]

theorem readExponent_append {exponent : Option (Bool × List Char)} {rest : List Char}
    (hexponent : ∀ part ∈ exponent, part.2 ≠ [] ∧ ∀ c ∈ part.2, isDigit c = true)
    (hrest : EndsNumber rest) :
    readExponent (exponentText exponent ++ rest) = .ok (exponent, rest) := by
  cases exponent with
  | none =>
      cases rest with
      | nil => rfl
      | cons c rest =>
          obtain ⟨-, -, hlower, hupper⟩ := hrest c (by simp)
          simp [exponentText, readExponent, hlower, hupper]
  | some part =>
      obtain ⟨negative, digits⟩ := part
      obtain ⟨hne, hdigits⟩ := hexponent (negative, digits) rfl
      have hspan : spanDigits (digits ++ rest) = (digits, rest) :=
        spanDigits_append hdigits fun c hc => (hrest c hc).1
      obtain ⟨d, tail, rfl⟩ := List.exists_cons_of_ne_nil hne
      cases negative <;>
        simp only [exponentText, List.cons_append, readExponent, Bool.false_eq_true, if_true,
          if_false, true_or] <;>
        rw [← List.cons_append, hspan]

/-! ## Whole numerals -/

theorem head?_exponentText_append (exponent : Option (Bool × List Char)) {rest : List Char}
    (hrest : EndsNumber rest) :
    ∀ c ∈ (exponentText exponent ++ rest).head?, isDigit c = false ∧ c ≠ '.' := by
  cases exponent with
  | none =>
      intro c hc
      exact ⟨(hrest c hc).1, (hrest c hc).2.1⟩
  | some part =>
      intro c hc
      simp only [exponentText, List.cons_append, List.head?_cons, Option.mem_def,
        Option.some.injEq] at hc
      subst c
      decide

theorem head?_fractionText_append (fraction : Option (List Char)) {rest : List Char}
    (hrest : ∀ c ∈ rest.head?, isDigit c = false) :
    ∀ c ∈ (fractionText fraction ++ rest).head?, isDigit c = false := by
  cases fraction with
  | none => exact hrest
  | some digits =>
      intro c hc
      simp only [fractionText, List.cons_append, List.head?_cons, Option.mem_def,
        Option.some.injEq] at hc
      subst c
      decide

theorem readNumeral_text {numeral : Numeral} (hnumeral : numeral.WellFormed)
    {rest : List Char} (hrest : EndsNumber rest) :
    readNumeral (numeral.text ++ rest) = .ok (numeral, rest) := by
  obtain ⟨negative, whole, fraction, exponent⟩ := numeral
  have hexponent : readExponent (exponentText exponent ++ rest) = .ok (exponent, rest) :=
    readExponent_append hnumeral.exponent hrest
  have hbehind := head?_exponentText_append exponent hrest
  have hfraction : readFraction (fractionText fraction ++ (exponentText exponent ++ rest)) =
      .ok (fraction, exponentText exponent ++ rest) :=
    readFraction_append hnumeral.fraction hbehind
  have hwhole :
      readWhole (whole ++ (fractionText fraction ++ (exponentText exponent ++ rest))) =
        .ok (whole, fractionText fraction ++ (exponentText exponent ++ rest)) :=
    readWhole_append hnumeral.whole hnumeral.first
      (head?_fractionText_append fraction fun c hc => (hbehind c hc).1)
  cases negative with
  | true =>
      simp only [Numeral.text, Decimal.withSign, if_true, List.cons_append, List.append_assoc,
        readNumeral, hwhole, hfraction, hexponent, bind, Except.bind, pure, Except.pure]
  | false =>
      obtain ⟨c, tail, hcons⟩ : ∃ c tail, whole = c :: tail := by
        rcases hnumeral.first with hzero | ⟨c, tail, hcons, -⟩
        · exact ⟨'0', [], hzero⟩
        · exact ⟨c, tail, hcons⟩
      have hne : c ≠ '-' := by
        rintro rfl
        have hdigit : isDigit '-' = true := hnumeral.whole '-' (by simp [hcons])
        exact absurd hdigit (by decide)
      subst hcons
      simp only [List.cons_append] at hwhole
      simp [Numeral.text, Decimal.withSign, readNumeral, hne, hwhole, hfraction, hexponent, bind,
        Except.bind, pure, Except.pure]

theorem readNumber_text {numeral : Numeral} (hnumeral : numeral.WellFormed)
    {value : Value} (hvalue : numeral.value = .ok value)
    {rest : List Char} (hrest : EndsNumber rest) :
    readNumber (numeral.text ++ rest) = .ok (value, rest) := by
  simp only [readNumber, readNumeral_text hnumeral hrest, hvalue, bind, Except.bind, pure,
    Except.pure]

/-- The first character of a number tells it from all other values. -/
def StartsNumeral (cs : List Char) : Prop :=
  ∃ c rest, cs = c :: rest ∧ (c = '-' ∨ isDigit c = true)

theorem Numeral.WellFormed.startsNumeral {numeral : Numeral} (hnumeral : numeral.WellFormed) :
    StartsNumeral numeral.text := by
  unfold Numeral.text Decimal.withSign
  cases numeral.negative with
  | true => exact ⟨'-', _, rfl, .inl rfl⟩
  | false =>
      rcases hnumeral.first with hzero | ⟨c, tail, hcons, -⟩
      · rw [hzero]
        exact ⟨'0', _, rfl, .inr rfl⟩
      · have hc : isDigit c = true := hnumeral.whole c (by simp [hcons])
        rw [hcons]
        exact ⟨c, _, rfl, .inr hc⟩

/-! ## The value of a numeral -/

theorem gather_eq {cs : List Char} {start : Nat}
    (hsmall : start * 10 ^ cs.length + valueOf cs < 2 ^ 64) :
    gather start cs = (start * 10 ^ cs.length + valueOf cs, cs.length) := by
  induction cs generalizing start with
  | nil => simp [gather, valueOf]
  | cons c rest ih =>
      rw [Decimal.shifted_valueOf_cons] at hsmall ⊢
      have hnext : 10 * start + Decimal.digitValue c < 2 ^ 64 :=
        lt_of_le_of_lt (Decimal.le_shifted_valueOf _ rest) hsmall
      rw [gather]
      simp only [if_pos hnext, ih hsmall, List.length_cons]

theorem exponentValue_eq {cs : List Char} {start : Nat}
    (hsmall : start * 10 ^ cs.length + valueOf cs < 2 ^ 31) :
    exponentValue start cs = .ok (start * 10 ^ cs.length + valueOf cs) := by
  induction cs generalizing start with
  | nil => simp [exponentValue, valueOf]
  | cons c rest ih =>
      rw [Decimal.shifted_valueOf_cons] at hsmall ⊢
      have hnext : 10 * start + Decimal.digitValue c < 2 ^ 31 :=
        lt_of_le_of_lt (Decimal.le_shifted_valueOf _ rest) hsmall
      rw [exponentValue]
      simp only [if_pos hnext, ih hsmall]

theorem gather_zero {cs : List Char} (hsmall : valueOf cs < 2 ^ 64) :
    gather 0 cs = (valueOf cs, cs.length) := by
  rw [gather_eq (by simpa using hsmall)]
  simp

namespace Numeral

theorem value_whole {negative : Bool} {whole : List Char} (hsmall : valueOf whole < 2 ^ 64) :
    (⟨negative, whole, none, none⟩ : Numeral).value =
      .ok ((⟨negative, whole, none, none⟩ : Numeral).wholeValue (valueOf whole)) := by
  simp [value, gather_zero hsmall]

theorem value_fraction {negative : Bool} {whole fraction : List Char}
    (hne : fraction ≠ []) (hsmall : valueOf (whole ++ fraction) < 2 ^ 64) :
    (⟨negative, whole, some fraction, none⟩ : Numeral).value =
      .ok (.float (Binary64.signed negative
        (divideByTenPow (Binary64.ofNat (valueOf (whole ++ fraction))) fraction.length))) := by
  rw [Decimal.valueOf_append] at hsmall ⊢
  have hstart : valueOf whole < 2 ^ 64 :=
    lt_of_le_of_lt (Decimal.le_shifted_valueOf _ fraction) hsmall
  obtain ⟨places, hplaces⟩ : ∃ n, fraction.length = n + 1 :=
    Nat.exists_eq_succ_of_ne_zero (by simpa using hne)
  have hpower : ((whole.length - whole.length : ℕ) : ℤ) - (fraction.length : ℤ) =
      Int.negSucc places := by
    rw [hplaces, Nat.sub_self]
    simp [Int.negSucc_eq]
  simp only [value, gather_zero hstart, Option.isNone_some, Bool.false_and, Bool.false_eq_true,
    if_false, Option.getD_some, gather_eq hsmall, hpower, scaledValue, scaleByTenPow?]
  rw [hplaces]

theorem value_exponent {negative down : Bool} {whole exponent : List Char}
    {fraction : Option (List Char)}
    (hsmall : valueOf (whole ++ fraction.getD []) < 2 ^ 64)
    (hbound : valueOf exponent + (fraction.getD []).length < 2 ^ 31) :
    (⟨negative, whole, fraction, some (down, exponent)⟩ : Numeral).value =
      (⟨negative, whole, fraction, some (down, exponent)⟩ : Numeral).scaledValue
        (valueOf (whole ++ fraction.getD []))
        ((if down then -(valueOf exponent : ℤ) else valueOf exponent) -
          (fraction.getD []).length) := by
  rw [Decimal.valueOf_append] at hsmall ⊢
  have hstart : valueOf whole < 2 ^ 64 :=
    lt_of_le_of_lt (Decimal.le_shifted_valueOf _ (fraction.getD [])) hsmall
  have hread : exponentValue 0 exponent = .ok (valueOf exponent) := by
    rw [exponentValue_eq (by omega)]
    simp
  have hclamp : clampExponent
      (if down then ((whole.length - whole.length : ℕ) : ℤ) - (fraction.getD []).length -
          valueOf exponent
        else ((whole.length - whole.length : ℕ) : ℤ) - (fraction.getD []).length +
          valueOf exponent) =
      (if down then -(valueOf exponent : ℤ) else valueOf exponent) -
        (fraction.getD []).length := by
    unfold clampExponent natPow
    rw [Nat.sub_self]
    split_ifs <;> omega
  simp only [value, gather_zero hstart, Option.isNone_some, Bool.and_false, Bool.false_and,
    Bool.false_eq_true, if_false, gather_eq hsmall, hread, hclamp]

end Numeral

/-! ## Whole numbers -/

theorem wellFormed_digits (negative : Bool) (n : Nat) :
    (⟨negative, digits n, none, none⟩ : Numeral).WellFormed where
  whole c hc := Decimal.isDigit_of_mem_digits hc
  first := by
    rcases Nat.eq_zero_or_pos n with hzero | hpos
    · subst hzero
      exact .inl (Decimal.digits_of_lt (by omega))
    · obtain ⟨c, rest, hcons, hne, -, -⟩ := Decimal.digits_eq_cons hpos
      exact .inr ⟨c, rest, hcons, hne⟩
  fraction digits hdigits := by simp at hdigits
  exponent part hpart := by simp at hpart

theorem integerDigits_eq_text (i : Int) :
    Decimal.integerDigits i = (⟨decide (i < 0), digits i.natAbs, none, none⟩ : Numeral).text := by
  cases i with
  | ofNat n =>
      simp [Decimal.integerDigits, Numeral.text, Decimal.withSign, fractionText, exponentText]
  | negSucc n =>
      simp [Decimal.integerDigits, Numeral.text, Decimal.withSign, fractionText, exponentText]

theorem readNumber_integerDigits {i : Int} (hi : InWordRange i)
    {rest : List Char} (hrest : EndsNumber rest) :
    readNumber (Decimal.integerDigits i ++ rest) = .ok (.integer i, rest) := by
  obtain ⟨hlow, hhigh⟩ := hi
  rw [integerDigits_eq_text]
  apply readNumber_text (wellFormed_digits _ _) _ hrest
  rw [Numeral.value_whole (by rw [Decimal.valueOf_digits]; omega), Decimal.valueOf_digits]
  by_cases hnegative : i < 0
  · have hrange : ¬ (i.natAbs = 0 ∨ 2 ^ 63 < i.natAbs) := by omega
    have hvalue : -(i.natAbs : ℤ) = i := by omega
    simp only [Numeral.wholeValue, hnegative, decide_true, if_true, if_neg hrange, hvalue]
  · have hvalue : (i.natAbs : ℤ) = i := by omega
    simp only [Numeral.wholeValue, hnegative, decide_false, Bool.false_eq_true, if_false, hvalue]

/-! ## Doubles -/

def pointDigits : List Char → List Char
  | [] => ['0']
  | digits => digits

/-- The digits after the point of a mantissa, which has no point if there are
none. -/
def mantissaDigits : List Char → Option (List Char)
  | [] => none
  | digits => some digits

/-- The numeral of a digit string whose first digit counts `10 ^ leading`. -/
def layoutNumeral (negative : Bool) (ds : List Char) (leading : Int) : Numeral :=
  if -5 ≤ leading ∧ leading ≤ 15 then
    match leading with
    | .ofNat power =>
        ⟨negative, ds.take (power + 1) ++ List.replicate (power + 1 - ds.length) '0',
          some (pointDigits (ds.drop (power + 1))), none⟩
    | .negSucc power => ⟨negative, ['0'], some (List.replicate power '0' ++ ds), none⟩
  else
    ⟨negative, ds.take 1, mantissaDigits (ds.drop 1),
      some (decide (leading < 0), digits leading.natAbs)⟩

theorem getD_mantissaDigits (ds : List Char) : (mantissaDigits ds).getD [] = ds := by
  cases ds <;> rfl

theorem withSign_write (negative : Bool) {ds : List Char} (hne : ds ≠ []) (leading : Int) :
    Decimal.withSign negative (numberLayout.write ds leading) =
      (layoutNumeral negative ds leading).text := by
  unfold Decimal.Layout.write layoutNumeral
  by_cases hplain : -5 ≤ leading ∧ leading ≤ 15
  · rw [if_pos hplain, if_pos (show numberLayout.plainFrom ≤ leading ∧
      leading ≤ numberLayout.plainTo from hplain)]
    cases leading with
    | ofNat power =>
        cases hdrop : ds.drop (power + 1) <;>
          simp [Decimal.Layout.positional, numberLayout, hdrop, Numeral.text, pointDigits,
            fractionText, exponentText]
    | negSucc power =>
        simp [Numeral.text, fractionText, exponentText]
  · rw [if_neg hplain, if_neg (show ¬ (numberLayout.plainFrom ≤ leading ∧
      leading ≤ numberLayout.plainTo) from hplain)]
    have hwidth : 1 - (digits leading.natAbs).length = 0 := by
      have hpos := Decimal.length_digits_pos leading.natAbs
      omega
    obtain ⟨first, rest, rfl⟩ := List.exists_cons_of_ne_nil hne
    cases rest <;>
      simp [Decimal.Layout.scientific, Decimal.Layout.exponent, numberLayout, hwidth,
        Numeral.text, mantissaDigits, fractionText, exponentText]

/-- A digit string that a number may start with, at the power it has there. -/
def StartsNumber (ds : List Char) (leading : Int) : Prop :=
  (∃ c rest, ds = c :: rest ∧ c ≠ '0') ∨ (ds = ['0'] ∧ leading = 0)

theorem wellFormed_layoutNumeral (negative : Bool) {ds : List Char} {leading : Int}
    (hds : ∀ c ∈ ds, isDigit c = true) (hstart : StartsNumber ds leading) :
    (layoutNumeral negative ds leading).WellFormed := by
  have hzeros : ∀ count, ∀ c ∈ List.replicate count '0', isDigit c = true := by
    intro count c hc
    rw [List.eq_of_mem_replicate hc]
    decide
  have hne : ds ≠ [] := by
    rcases hstart with ⟨c, rest, hcons, -⟩ | ⟨hzero, -⟩ <;> simp_all
  unfold layoutNumeral
  by_cases hplain : -5 ≤ leading ∧ leading ≤ 15
  · rw [if_pos hplain]
    cases leading with
    | ofNat power =>
        refine ⟨?_, ?_, ?_, ?_⟩
        · intro c hc
          rcases List.mem_append.mp hc with hfront | hfill
          · exact hds c (List.mem_of_mem_take hfront)
          · exact hzeros _ c hfill
        · rcases hstart with ⟨c, rest, hcons, hc⟩ | ⟨hzero, hleading⟩
          · subst hcons
            exact .inr ⟨c, _, rfl, hc⟩
          · have hpower : power = 0 := by simpa using hleading
            subst hpower hzero
            exact .inl rfl
        · intro fraction hfraction
          simp only [Option.mem_def, Option.some.injEq] at hfraction
          subst hfraction
          cases hdrop : ds.drop (power + 1) with
          | nil => exact ⟨by simp [pointDigits], by simp [pointDigits, isDigit]⟩
          | cons d rest =>
              refine ⟨by simp [pointDigits], fun c hc => hds c ?_⟩
              apply List.mem_of_mem_drop (i := power + 1)
              rw [hdrop]
              exact hc
        · intro part hpart
          simp at hpart
    | negSucc power =>
        refine ⟨by simp [isDigit], .inl rfl, ?_, by simp⟩
        intro fraction hfraction
        simp only [Option.mem_def, Option.some.injEq] at hfraction
        subst hfraction
        refine ⟨by simp [hne], ?_⟩
        intro c hc
        rcases List.mem_append.mp hc with hfill | hback
        · exact hzeros _ c hfill
        · exact hds c hback
  · rw [if_neg hplain]
    refine ⟨fun c hc => hds c (List.mem_of_mem_take hc), ?_, ?_, ?_⟩
    · rcases hstart with ⟨c, rest, hcons, hc⟩ | ⟨hzero, hleading⟩
      · subst hcons
        exact .inr ⟨c, [], rfl, hc⟩
      · omega
    · intro fraction hfraction
      cases hdrop : ds.drop 1 with
      | nil => simp [hdrop, mantissaDigits] at hfraction
      | cons d rest =>
          simp only [hdrop, mantissaDigits, Option.mem_def, Option.some.injEq] at hfraction
          subst hfraction
          refine ⟨by simp, fun c hc => hds c ?_⟩
          apply List.mem_of_mem_drop (i := 1)
          rw [hdrop]
          exact hc
    · intro part hpart
      simp only [Option.mem_def, Option.some.injEq] at hpart
      subst hpart
      refine ⟨List.ne_nil_of_length_pos (Decimal.length_digits_pos _), ?_⟩
      intro c hc
      exact Decimal.isDigit_of_mem_digits hc

/-- A decimal that can be read: its coefficient and the power of ten of its
last digit, multiplied in double precision, stay finite. -/
structure Readable (c : Nat) (leading : Int) : Prop where
  coefficient_lt : c < 10 ^ 17
  start : 0 < c ∨ leading = 0
  leading_bounds : -324 ≤ leading ∧ leading ≤ 308
  product :
    ∀ e : Nat, leading - ((digits c).length - 1 : ℕ) = e →
      e ≤ maxTenPow ∧ ((Binary64.ofNat c).mul (Binary64.tenPow e)).isInfinite = false

theorem Readable.length_digits_le {c : Nat} {leading : Int} (hread : Readable c leading) :
    (digits c).length ≤ 17 :=
  Decimal.length_digits_le (by omega) hread.coefficient_lt

theorem Readable.startsNumber {c : Nat} {leading : Int} (hread : Readable c leading) :
    StartsNumber (digits c) leading := by
  rcases Nat.eq_zero_or_pos c with hzero | hpos
  · subst hzero
    refine .inr ⟨Decimal.digits_of_lt (by omega), ?_⟩
    rcases hread.start with hpos | hleading
    · omega
    · exact hleading
  · obtain ⟨first, rest, hcons, hne, -, -⟩ := Decimal.digits_eq_cons hpos
    exact .inl ⟨first, rest, hcons, hne⟩

theorem valueOf_lt_word {ds : List Char} (hds : ∀ c ∈ ds, isDigit c = true)
    (hlength : ds.length ≤ 17) : valueOf ds < 2 ^ 64 :=
  calc
    valueOf ds < 10 ^ ds.length := Decimal.valueOf_lt hds
    _ ≤ 10 ^ 17 := Nat.pow_le_pow_right (by omega) hlength
    _ < 2 ^ 64 := by norm_num

theorem scaledValue_eq_ok (numeral : Numeral) {c : Nat} {power : Int}
    (hproduct : ∀ e : Nat, power = e →
      e ≤ maxTenPow ∧ ((Binary64.ofNat c).mul (Binary64.tenPow e)).isInfinite = false) :
    ∃ y, numeral.scaledValue c power = .ok (.float y) := by
  cases power with
  | ofNat e =>
      obtain ⟨he, hfinite⟩ := hproduct e rfl
      simp [Numeral.scaledValue, scaleByTenPow?, he, hfinite]
  | negSucc e => simp [Numeral.scaledValue, scaleByTenPow?]

theorem value_layoutNumeral (negative : Bool) {c : Nat} {leading : Int}
    (hread : Readable c leading) :
    ∃ y, (layoutNumeral negative (digits c) leading).value = .ok (.float y) := by
  have hwell := wellFormed_layoutNumeral negative
    (fun d hd => Decimal.isDigit_of_mem_digits hd) hread.startsNumber
  have hlength := hread.length_digits_le
  have hpos := Decimal.length_digits_pos c
  unfold layoutNumeral at hwell ⊢
  by_cases hplain : -5 ≤ leading ∧ leading ≤ 15
  · rw [if_pos hplain] at hwell ⊢
    cases leading with
    | ofNat power =>
        obtain ⟨hne, hfraction⟩ := hwell.fraction _ rfl
        refine ⟨_, Numeral.value_fraction hne (valueOf_lt_word ?_ ?_)⟩
        · intro d hd
          rcases List.mem_append.mp hd with hwhole | hafter
          · exact hwell.whole d hwhole
          · exact hfraction d hafter
        · have hpower : power ≤ 15 := by
            have hbound := hplain.2
            simp only [Int.ofNat_eq_natCast] at hbound
            omega
          cases hdrop : (digits c).drop (power + 1) with
          | nil =>
              simp [pointDigits]
              omega
          | cons d rest =>
              have hcount := congrArg List.length hdrop
              simp at hcount
              simp [pointDigits]
              omega
    | negSucc power =>
        obtain ⟨hne, -⟩ := hwell.fraction _ rfl
        refine ⟨_, Numeral.value_fraction hne ?_⟩
        have hvalue : valueOf (['0'] ++ (List.replicate power '0' ++ digits c)) = c := by
          have hzero : valueOf ['0'] = 0 := rfl
          rw [Decimal.valueOf_append, Decimal.valueOf_append, Decimal.valueOf_replicate_zero,
            Decimal.valueOf_digits, hzero]
          simp
        rw [hvalue]
        have hsmall := hread.coefficient_lt
        omega
  · rw [if_neg hplain]
    have hwhole : (digits c).take 1 ++ (mantissaDigits ((digits c).drop 1)).getD [] = digits c := by
      rw [getD_mantissaDigits, List.take_append_drop]
    have hplaces : ((mantissaDigits ((digits c).drop 1)).getD []).length =
        (digits c).length - 1 := by
      rw [getD_mantissaDigits, List.length_drop]
    have hbounds := hread.leading_bounds
    have hsmall := hread.coefficient_lt
    rw [Numeral.value_exponent
      (by rw [hwhole, Decimal.valueOf_digits]; omega)
      (by rw [hplaces, Decimal.valueOf_digits]; omega)]
    rw [hwhole, hplaces, Decimal.valueOf_digits, Decimal.valueOf_digits]
    apply scaledValue_eq_ok
    intro e he
    apply hread.product e
    rw [← he]
    by_cases hnegative : leading < 0
    · simp only [hnegative, decide_true, if_true]
      omega
    · simp only [hnegative, decide_false, Bool.false_eq_true, if_false]
      omega

theorem readable_zero : Readable 0 0 := by
  refine ⟨by norm_num, .inr rfl, by decide, ?_⟩
  intro e he
  have hlength : (digits 0).length = 1 := by rw [Decimal.digits_of_lt (by omega)]; rfl
  rw [hlength] at he
  have hezero : e = 0 := by omega
  subst hezero
  decide +kernel

theorem readable_shortest {x : Binary64} (hfinite : x.isFinite = true)
    (hzero : x.isZero = false) :
    Readable (Decimal.shortest x).coefficient (Decimal.shortest x).leading := by
  have hbounds := Decimal.shortest_leading_bounds hfinite hzero
  rcases Decimal.shortest_cases hzero with ⟨hnone, -⟩ | ⟨count, k, power, hhit, hmade⟩
  · rw [hnone]
    exact readable_zero
  · have hlt : (Decimal.shortest x).coefficient < 10 ^ 17 :=
      lt_of_lt_of_le hmade.hasDigits.coefficient_lt (Nat.pow_le_pow_right (by omega) hmade.count_le)
    refine ⟨hlt, .inl hmade.hasDigits.coefficient_pos, hbounds, ?_⟩
    intro e he
    rw [hmade.hasDigits.length_digits] at he
    exact Decimal.isInfinite_mul_tenPow hmade.hasDigits.coefficient_pos hlt
      (Decimal.shortest_product_le hfinite hzero hhit hmade he)

/-- The text of a finite double is the text of a numeral that denotes a
double. -/
theorem floatText_eq_text {x : Binary64} (hfinite : x.isFinite = true) :
    ∃ numeral : Numeral, floatText x = numeral.text ∧ numeral.WellFormed ∧
      ∃ y, numeral.value = .ok (.float y) := by
  obtain ⟨c, leading, htext, hread⟩ : ∃ c leading,
      floatText x = Decimal.withSign x.isNegative (numberLayout.write (digits c) leading) ∧
        Readable c leading := by
    unfold floatText
    cases hzero : x.isZero with
    | true => exact ⟨0, 0, by rw [Decimal.digits_of_lt (by omega)]; rfl, readable_zero⟩
    | false =>
        refine ⟨_, _, ?_, readable_shortest hfinite hzero⟩
        simp only [Bool.false_eq_true, if_false]
  have hne : digits c ≠ [] := List.ne_nil_of_length_pos (Decimal.length_digits_pos c)
  refine ⟨layoutNumeral x.isNegative (digits c) leading, ?_, ?_, ?_⟩
  · rw [htext, withSign_write x.isNegative hne]
  · exact wellFormed_layoutNumeral _ (fun d hd => Decimal.isDigit_of_mem_digits hd)
      hread.startsNumber
  · exact value_layoutNumeral _ hread

/-- The double that comes back from the text of a finite double. -/
def rereadFloat (x : Binary64) : Binary64 :=
  match readNumber (floatText x) with
  | .ok (.float y, _) => y
  | _ => x

theorem readNumber_floatText {x : Binary64} (hfinite : x.isFinite = true)
    {rest : List Char} (hrest : EndsNumber rest) :
    readNumber (floatText x ++ rest) = .ok (.float (rereadFloat x), rest) := by
  obtain ⟨numeral, htext, hwell, y, hvalue⟩ := floatText_eq_text hfinite
  have halone : readNumber (floatText x) = .ok (.float y, []) := by
    have hread := readNumber_text hwell hvalue endsNumber_nil
    rwa [List.append_nil, ← htext] at hread
  have hy : rereadFloat x = y := by simp only [rereadFloat, halone]
  rw [htext, hy]
  exact readNumber_text hwell hvalue hrest

end Json
end SyntaxDump

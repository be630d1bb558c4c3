import Mathlib.Tactic
import SyntaxDump.Proofs.Json.Token

/-!
# Integer literals

The literals without fraction and exponent are the canonical forms of the
integers, and minus zero.  One of them spells an integer exactly if the integer
fits into 64 bits, and then it is that integer: no literal of any length is
wrapped, truncated or rounded to another one.
-/

namespace SyntaxDump
namespace Decimal

theorem digitChar_digitValue {c : Char} (hc : isDigit c = true) : digitChar (digitValue c) = c := by
  obtain ⟨hlow, hhigh⟩ := (isDigit_iff c).mp hc
  rw [digitChar, digitValue, show '0'.toNat = 48 from rfl, Nat.add_sub_cancel' hlow,
    Char.ofNat_toNat]

theorem valueOf_pos {c : Char} {rest : List Char} (hdigit : isDigit c = true) (hc : c ≠ '0') :
    0 < valueOf (c :: rest) := by
  have hvalue : 0 < digitValue c := by
    rw [Nat.pos_iff_ne_zero]
    intro hzero
    apply hc
    rw [← digitChar_digitValue hdigit, hzero]
    rfl
  rw [valueOf_cons]
  positivity

/-- Digits without a needless zero in front are the canonical ones. -/
theorem digits_valueOf {cs : List Char} (hdigits : ∀ c ∈ cs, isDigit c = true)
    (hfirst : cs = ['0'] ∨ ∃ c tail, cs = c :: tail ∧ c ≠ '0') : digits (valueOf cs) = cs := by
  -- the last digit is the remainder of a division by ten
  induction cs using List.reverseRecOn with
  | nil => simp at hfirst
  | append_singleton front c ih =>
      have hc : isDigit c = true := hdigits c (by simp)
      have hlast : valueOf [c] = digitValue c := by simp [valueOf]
      have hsmall := digitValue_lt hc
      cases front with
      | nil =>
          rw [List.nil_append, hlast, digits_of_lt hsmall, digitChar_digitValue hc]
      | cons first middle =>
          have hne : first ≠ '0' := by
            rcases hfirst with hzero | ⟨d, tail, hcons, hd⟩
            · simp at hzero
            · obtain ⟨rfl, -⟩ := List.cons.inj hcons
              exact hd
          have hfront : digits (valueOf (first :: middle)) = first :: middle :=
            ih (fun d hd => hdigits d (List.mem_append_left _ hd)) (.inr ⟨first, middle, rfl, hne⟩)
          have hpos : 0 < valueOf (first :: middle) := valueOf_pos (hdigits first (by simp)) hne
          have hsplit : valueOf (first :: middle ++ [c]) =
              valueOf (first :: middle) * 10 + digitValue c := by
            rw [valueOf_append, hlast, List.length_singleton, pow_one]
          have hquotient : (valueOf (first :: middle) * 10 + digitValue c) / 10 =
              valueOf (first :: middle) := by omega
          have hremainder : (valueOf (first :: middle) * 10 + digitValue c) % 10 =
              digitValue c := by omega
          rw [hsplit, digits_of_le (by omega), hquotient, hremainder, hfront,
            digitChar_digitValue hc]

theorem integerDigits_neg {n : Nat} (hn : n ≠ 0) : integerDigits (-n) = '-' :: digits n := by
  obtain ⟨m, rfl⟩ := Nat.exists_eq_succ_of_ne_zero hn
  rfl

end Decimal

namespace Json

open Decimal (isDigit valueOf digits integerDigits)

/-! ## The digits that are taken -/

theorem gather_le (start : Nat) (cs : List Char) : (gather start cs).2 ≤ cs.length := by
  induction cs generalizing start with
  | nil => exact Nat.le_refl _
  | cons c rest ih =>
      rw [gather]
      split_ifs
      · exact Nat.succ_le_succ (ih _)
      · exact Nat.zero_le _

theorem gather_lt {start : Nat} (hstart : start < 2 ^ 64) (cs : List Char) :
    (gather start cs).1 < 2 ^ 64 := by
  induction cs generalizing start with
  | nil => exact hstart
  | cons c rest ih =>
      rw [gather]
      split_ifs with hnext
      · exact ih hnext
      · exact hstart

theorem gather_all {start : Nat} {cs : List Char} (hall : (gather start cs).2 = cs.length) :
    (gather start cs).1 = start * 10 ^ cs.length + valueOf cs := by
  induction cs generalizing start with
  | nil => simp [gather, valueOf]
  | cons c rest ih =>
      rw [gather] at hall ⊢
      split_ifs at hall ⊢ with hnext
      · rw [Decimal.shifted_valueOf_cons]
        exact ih (by simpa using hall)

/-- The value of a numeral is an integer only if all digits have been taken. -/
theorem whole_of_value {numeral : Numeral} {i : Int} (hvalue : numeral.value = .ok (.integer i)) :
    numeral.fraction = none ∧ numeral.exponent = none ∧ valueOf numeral.whole < 2 ^ 64 ∧
      numeral.wholeValue (valueOf numeral.whole) = .integer i := by
  have hscaled (significand : Nat) (exponent : Int) :
      numeral.scaledValue significand exponent ≠ .ok (.integer i) := by
    intro hscaled
    rw [Numeral.scaledValue] at hscaled
    split at hscaled <;> simp at hscaled
  revert hvalue
  fun_cases Numeral.value numeral with
  | case1 significand taken hgather dropped hwhole =>
      intro hvalue
      simp only [Bool.and_eq_true, Option.isNone_iff_eq_none, beq_iff_eq] at hwhole
      obtain ⟨⟨hfraction, hexponent⟩, hdropped⟩ := hwhole
      have hle := gather_le 0 numeral.whole
      have hlt : (gather 0 numeral.whole).1 < 2 ^ 64 := gather_lt (by norm_num) numeral.whole
      have hall : (gather 0 numeral.whole).2 = numeral.whole.length := by
        rw [hgather] at hle ⊢
        simp only at hle ⊢
        omega
      have hsignificand := gather_all hall
      rw [hgather, Nat.zero_mul, Nat.zero_add] at hsignificand
      rw [hgather] at hlt
      rw [← hsignificand]
      exact ⟨hfraction, hexponent, hlt, Except.ok.inj hvalue⟩
  | case2 => exact fun hvalue => absurd hvalue (hscaled _ _)
  | case3 => exact fun hvalue => absurd hvalue (hscaled _ _)
  | case4 => simp
  | case5 => simp

/-! ## Literals -/

/-- The integer that the sign and the digits in front of the point denote. -/
def Numeral.integer (numeral : Numeral) : Int :=
  if numeral.negative then -(valueOf numeral.whole : ℤ) else valueOf numeral.whole

/-- A number without fraction and exponent, of any length, and the integer that it
denotes. -/
def IntegerLiteral (text : List Char) (i : Int) : Prop :=
  ∃ numeral : Numeral, SpellsNumeral text numeral ∧ numeral.fraction = none ∧
    numeral.exponent = none ∧ numeral.integer = i

theorem SpellsNumeral.text_eq {text : List Char} {numeral : Numeral}
    (htext : SpellsNumeral text numeral) (hfraction : numeral.fraction = none)
    (hexponent : numeral.exponent = none) :
    text = Decimal.withSign numeral.negative (digits (valueOf numeral.whole)) := by
  obtain ⟨hwell, raw, hraw, rfl⟩ := htext
  rw [hexponent] at hraw
  cases hraw
  rw [hfraction, Decimal.digits_valueOf hwell.whole hwell.first]
  simp [fractionText]

/-- Every literal but minus zero is the canonical form of its integer. -/
theorem IntegerLiteral.eq_integerDigits {text : List Char} {i : Int} (htext : IntegerLiteral text i)
    (hzero : text ≠ "-0".toList) : text = integerDigits i := by
  obtain ⟨numeral, hnumeral, hfraction, hexponent, rfl⟩ := htext
  rw [hnumeral.text_eq hfraction hexponent] at hzero ⊢
  rw [Numeral.integer]
  cases hsign : numeral.negative with
  | false => rfl
  | true =>
      have hn : valueOf numeral.whole ≠ 0 := by
        intro hn
        apply hzero
        rw [hn, hsign, Decimal.digits_of_lt (by omega)]
        rfl
      exact (Decimal.integerDigits_neg hn).symm

theorem spellsNumeral_integerDigits (i : Int) :
    SpellsNumeral (integerDigits i) ⟨decide (i < 0), digits i.natAbs, none, none⟩ :=
  ⟨wellFormed_digits _ _, [], .absent, integerDigits_eq_text i⟩

theorem integerLiteral_integerDigits (i : Int) : IntegerLiteral (integerDigits i) i := by
  refine ⟨_, spellsNumeral_integerDigits i, rfl, rfl, ?_⟩
  simp only [Numeral.integer, Decimal.valueOf_digits, decide_eq_true_eq]
  split_ifs <;> omega

/-- A text spells an integer exactly if it is its canonical form and the integer has
64 bits. -/
theorem spellsScalar_integer {text : List Char} {i : Int} :
    SpellsScalar text (.integer i) ↔ text = integerDigits i ∧ InWordRange i := by
  constructor
  · intro htext
    cases htext with
    | @number _ numeral _ hnumeral hvalue =>
        obtain ⟨hfraction, hexponent, hsmall, hwhole⟩ := whole_of_value hvalue
        rw [hnumeral.text_eq hfraction hexponent]
        unfold Numeral.wholeValue natPow at hwhole
        split_ifs at hwhole with hnegative hrange
        · simp only [Value.integer.injEq] at hwhole
          subst hwhole
          rw [Decimal.integerDigits_neg (by omega), hnegative, InWordRange]
          exact ⟨rfl, by omega, by omega⟩
        · simp only [Value.integer.injEq] at hwhole
          subst hwhole
          rw [Bool.eq_false_of_not_eq_true hnegative, InWordRange]
          exact ⟨rfl, by omega, by omega⟩
  · rintro ⟨rfl, hi⟩
    have hread := readNumber_integerDigits hi endsNumber_nil
    rw [readNumber, readNumeral_of_spells (spellsNumeral_integerDigits i) endsNumber_nil] at hread
    simp only [bind, Except.bind] at hread
    split at hread
    · rename_i value hvalue
      cases hread
      exact .number (spellsNumeral_integerDigits i) hvalue
    · cases hread

theorem SpellsScalar.unique {text : List Char} {value value' : Value}
    (htext : SpellsScalar text value) (htext' : SpellsScalar text value') : value = value' := by
  have hread := readValue_of_spellsScalar htext 0 endsNumber_nil
  rw [readValue_of_spellsScalar htext' 0 endsNumber_nil] at hread
  cases hread
  rfl

/-- What the canonical form of an integer spells, if anything: the integer, or no
integer at all. -/
theorem eq_integer_of_integerDigits {i : Int} {value : Value}
    (hvalue : SpellsScalar (integerDigits i) value) :
    value = .integer i ∨ ¬InWordRange i ∧ ∀ j, value ≠ .integer j := by
  by_cases hi : InWordRange i
  · exact .inl (hvalue.unique (spellsScalar_integer.mpr ⟨rfl, hi⟩))
  · right
    refine ⟨hi, ?_⟩
    rintro j rfl
    obtain ⟨hdigits, hj⟩ := spellsScalar_integer.mp hvalue
    exact hi (Decimal.integerDigits_injective hdigits ▸ hj)

end Json
end SyntaxDump

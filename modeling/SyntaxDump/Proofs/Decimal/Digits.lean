import Mathlib.Tactic
import SyntaxDump.Decimal.Digits

/-!
# Decimal digits denote their number

The digits of a natural number are digit characters, do not start with a zero
unless the number is zero, and denote the number they came from.  A digit
string of a given length denotes a number below the matching power of ten.
Reading digits is a left fold, so a prefix that has been read enters as a
start value which every further digit multiplies by ten.
-/

namespace SyntaxDump
namespace Decimal

/-! ## Single digits -/

theorem digitValue_digitChar {d : Nat} (hd : d < 10) :
    digitValue (digitChar d) = d := by
  revert d
  decide

theorem isDigit_digitChar {d : Nat} (hd : d < 10) :
    isDigit (digitChar d) = true := by
  revert d
  decide

theorem digitChar_ne_zero {d : Nat} (hd : d < 10) (hpos : 0 < d) :
    digitChar d ≠ '0' := by
  revert d
  decide

theorem isDigit_iff (c : Char) :
    isDigit c = true ↔ 48 ≤ c.toNat ∧ c.toNat ≤ 57 := by
  simp only [isDigit, Bool.and_eq_true, decide_eq_true_eq]
  rfl

theorem digitValue_lt {c : Char} (hc : isDigit c = true) :
    digitValue c < 10 := by
  have hrange := (isDigit_iff c).mp hc
  have hzero : '0'.toNat = 48 := rfl
  unfold digitValue
  omega

/-! ## Reading -/

theorem foldl_digits_eq
    (start : Nat) (cs : List Char) :
    cs.foldl (fun n c => 10 * n + digitValue c) start =
      start * 10 ^ cs.length + valueOf cs := by
  unfold valueOf
  induction cs generalizing start with
  | nil => simp
  | cons c rest ih =>
      simp only [List.foldl_cons, List.length_cons]
      rw [ih (10 * start + digitValue c), ih (10 * 0 + digitValue c), pow_succ]
      ring

theorem valueOf_append (front back : List Char) :
    valueOf (front ++ back) =
      valueOf front * 10 ^ back.length + valueOf back := by
  rw [valueOf, List.foldl_append, foldl_digits_eq]
  rfl

theorem valueOf_cons (c : Char) (rest : List Char) :
    valueOf (c :: rest) = digitValue c * 10 ^ rest.length + valueOf rest := by
  have happend := valueOf_append [c] rest
  simpa [valueOf] using happend

theorem shifted_valueOf_cons (start : Nat) (c : Char) (rest : List Char) :
    start * 10 ^ (c :: rest).length + valueOf (c :: rest) =
      (10 * start + digitValue c) * 10 ^ rest.length + valueOf rest := by
  rw [valueOf_cons, List.length_cons, pow_succ]
  ring

theorem le_shifted_valueOf (start : Nat) (cs : List Char) :
    start ≤ start * 10 ^ cs.length + valueOf cs := by
  have hpow : 0 < 10 ^ cs.length := by positivity
  have hle := Nat.le_mul_of_pos_right start hpow
  omega

theorem valueOf_replicate_zero (count : Nat) :
    valueOf (List.replicate count '0') = 0 := by
  induction count with
  | zero => rfl
  | succ count ih =>
      rw [List.replicate_succ, valueOf_cons, ih]
      simp [digitValue]

theorem valueOf_lt {cs : List Char}
    (hdigits : ∀ c ∈ cs, isDigit c = true) :
    valueOf cs < 10 ^ cs.length := by
  induction cs with
  | nil => simp [valueOf]
  | cons c rest ih =>
      have hhead := digitValue_lt (hdigits c (by simp))
      have htail := ih (fun d hd => hdigits d (by simp [hd]))
      have hstep : (digitValue c + 1) * 10 ^ rest.length ≤ 10 * 10 ^ rest.length :=
        Nat.mul_le_mul_right _ hhead
      rw [valueOf_cons, List.length_cons, pow_succ]
      linarith

/-! ## Writing -/

theorem digits_of_lt {n : Nat} (hn : n < 10) : digits n = [digitChar n] := by
  rw [digits, if_pos hn]

theorem digits_of_le {n : Nat} (hn : 10 ≤ n) :
    digits n = digits (n / 10) ++ [digitChar (n % 10)] := by
  rw [digits, if_neg (by omega)]

theorem isDigit_of_mem_digits {n : Nat} {c : Char} (hc : c ∈ digits n) :
    isDigit c = true := by
  induction n using Nat.strong_induction_on with
  | h n ih =>
      by_cases hn : n < 10
      · rw [digits_of_lt hn, List.mem_singleton] at hc
        subst c
        exact isDigit_digitChar hn
      · rw [digits_of_le (by omega), List.mem_append, List.mem_singleton] at hc
        rcases hc with hfront | hlast
        · exact ih (n / 10) (by omega) hfront
        · subst c
          exact isDigit_digitChar (by omega)

@[simp] theorem valueOf_digits (n : Nat) : valueOf (digits n) = n := by
  induction n using Nat.strong_induction_on with
  | h n ih =>
      by_cases hn : n < 10
      · rw [digits_of_lt hn]
        simp [valueOf, digitValue_digitChar hn]
      · rw [digits_of_le (by omega), valueOf_append, ih (n / 10) (by omega)]
        simp only [List.length_singleton, pow_one, valueOf, List.foldl_cons, List.foldl_nil,
          digitValue_digitChar (Nat.mod_lt n (by omega))]
        omega

theorem digits_injective {m n : Nat} (heq : digits m = digits n) : m = n := by
  rw [← valueOf_digits m, heq, valueOf_digits]

theorem digits_ne_minus (n : Nat) (rest : List Char) : digits n ≠ '-' :: rest := by
  intro heq
  have hminus : isDigit '-' = true := isDigit_of_mem_digits (n := n) (by simp [heq])
  exact absurd hminus (by decide)

theorem integerDigits_injective {i j : Int} (hdigits : integerDigits i = integerDigits j) :
    i = j := by
  cases i with
  | ofNat m =>
      cases j with
      | ofNat n => rw [digits_injective hdigits]
      | negSucc n => exact absurd hdigits (digits_ne_minus m _)
  | negSucc m =>
      cases j with
      | ofNat n => exact absurd hdigits.symm (digits_ne_minus n _)
      | negSucc n =>
          have hsucc := digits_injective (List.cons.inj hdigits).2
          rw [Nat.succ.inj hsucc]

theorem integerText_injective {i j : Int} (heq : integerText i = integerText j) : i = j :=
  integerDigits_injective (String.ofList_injective heq)

theorem digits_eq_cons {n : Nat} (hn : 0 < n) :
    ∃ c rest, digits n = c :: rest ∧ c ≠ '0' ∧ isDigit c = true ∧
      ∀ d ∈ rest, isDigit d = true := by
  have hhead : ∃ c rest, digits n = c :: rest ∧ c ≠ '0' := by
    induction n using Nat.strong_induction_on with
    | h n ih =>
        by_cases hlt : n < 10
        · exact ⟨_, [], digits_of_lt hlt, digitChar_ne_zero hlt hn⟩
        · obtain ⟨c, rest, heq, hne⟩ := ih (n / 10) (by omega) (by omega)
          refine ⟨c, rest ++ [digitChar (n % 10)], ?_, hne⟩
          rw [digits_of_le (by omega), heq, List.cons_append]
  obtain ⟨c, rest, heq, hne⟩ := hhead
  refine ⟨c, rest, heq, hne, ?_, ?_⟩
  · exact isDigit_of_mem_digits (n := n) (by simp [heq])
  · intro d hd
    exact isDigit_of_mem_digits (n := n) (by simp [heq, hd])

theorem length_digits_pos (n : Nat) : 0 < (digits n).length := by
  by_cases hn : n < 10
  · simp [digits_of_lt hn]
  · simp [digits_of_le (n := n) (by omega)]

theorem length_digits_le {n k : Nat} (hk : 0 < k) (hn : n < 10 ^ k) :
    (digits n).length ≤ k := by
  induction k generalizing n with
  | zero => omega
  | succ k ih =>
      by_cases hlt : n < 10
      · simp [digits_of_lt hlt]
      · have hkpos : 0 < k := by
          rcases Nat.eq_zero_or_pos k with hzero | hpos
          · subst hzero
            simp at hn
            omega
          · exact hpos
        have hdiv : n / 10 < 10 ^ k := by
          rw [pow_succ] at hn
          omega
        rw [digits_of_le (by omega), List.length_append, List.length_singleton]
        have hfront := ih hkpos hdiv
        omega

theorem lt_length_digits {n k : Nat} (hn : 10 ^ k ≤ n) :
    k < (digits n).length := by
  have hvalue : valueOf (digits n) < 10 ^ (digits n).length :=
    valueOf_lt fun _ hc => isDigit_of_mem_digits hc
  rw [valueOf_digits] at hvalue
  exact (Nat.pow_lt_pow_iff_right (by omega)).mp (lt_of_le_of_lt hn hvalue)

theorem digitCount_eq_length (n : Nat) : digitCount n = (digits n).length := by
  induction n using Nat.strong_induction_on with
  | h n ih =>
      rw [digitCount]
      by_cases hn : n < 10
      · rw [if_pos hn, digits_of_lt hn, List.length_singleton]
      · rw [if_neg hn, ih (n / 10) (by omega), digits_of_le (n := n) (by omega),
          List.length_append, List.length_singleton]

/-- A positive number lies between the powers of ten that its digit count
names. -/
theorem digitCount_bounds {n : Nat} (hn : 0 < n) :
    ∃ k, digitCount n = k + 1 ∧ 10 ^ k ≤ n ∧ n < 10 ^ (k + 1) := by
  obtain ⟨k, hk⟩ : ∃ k, (digits n).length = k + 1 :=
    ⟨_, (Nat.succ_pred_eq_of_pos (length_digits_pos n)).symm⟩
  refine ⟨k, (digitCount_eq_length n).trans hk, ?_, ?_⟩
  · by_contra hlt
    rcases Nat.eq_zero_or_pos k with hzero | hpos
    · subst hzero
      simp at hlt
      omega
    · have hshort := length_digits_le hpos (Nat.lt_of_not_le hlt)
      omega
  · by_contra hge
    have hlong := lt_length_digits (Nat.le_of_not_lt hge)
    omega

/-! ## Words -/

theorem lt_of_readWord? {text : String} {n : Nat} (hread : readWord? text = some n) :
    n < 2 ^ 64 := by
  unfold readWord? at hread
  simp only [Option.ite_none_right_eq_some, Bool.and_eq_true, decide_eq_true_eq,
    Option.some.injEq] at hread
  obtain ⟨⟨-, hlt⟩, rfl⟩ := hread
  exact hlt

theorem readWord?_natText {n : Nat} (hn : n < 2 ^ 64) : readWord? (natText n) = some n := by
  have hdigits : ∀ c ∈ digits n, isDigit c = true := fun _ hc => isDigit_of_mem_digits hc
  have hne : digits n ≠ [] := List.ne_nil_of_length_pos (length_digits_pos n)
  have hstart : ∀ rest, digits n ≠ '+' :: rest := by
    intro rest heq
    exact absurd (hdigits '+' (by simp [heq])) (by decide)
  unfold readWord? natText
  rw [String.toList_ofList]
  split
  · rename_i rest heq
    exact absurd heq (hstart rest)
  · simpa [valueOf_digits, hne] using ⟨hdigits, hn⟩

end Decimal
end SyntaxDump

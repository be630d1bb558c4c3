import Mathlib.Tactic
import SyntaxDump.Proofs.Json.ReadBack
import SyntaxDump.Proofs.Outcome

/-!
# The tokens of texts

How blanks, strings, numbers and words are spelled, said without the reader: a
string may use any escape, and a number any letter and sign of the exponent.
The reader agrees with this in both directions.  What it reads is spelled by the
part of the text that it has used up, and what is spelled is read whatever
follows it, unless what follows continues a number.
-/

namespace SyntaxDump
namespace Json

open Decimal (isDigit)

/-! ## Blanks -/

def Blanks (cs : List Char) : Prop := ∀ c ∈ cs, isBlank c = true

theorem blanks_nil : Blanks [] := by
  intro c hc
  simp at hc

theorem Blanks.append {front back : List Char} (hfront : Blanks front) (hback : Blanks back) :
    Blanks (front ++ back) := by
  intro c hc
  rcases List.mem_append.mp hc with hmem | hmem
  · exact hfront c hmem
  · exact hback c hmem

theorem Blanks.skip {blanks : List Char} (hblanks : Blanks blanks) (cs : List Char) :
    skipBlanks (blanks ++ cs) = skipBlanks cs :=
  List.dropWhile_append_of_pos hblanks

theorem StartsSolid.append {cs : List Char} (hcs : StartsSolid cs) (rest : List Char) :
    StartsSolid (cs ++ rest) := by
  obtain ⟨c, tail, rfl, hc⟩ := hcs
  exact ⟨c, tail ++ rest, rfl, hc⟩

theorem Blanks.skip_solid {blanks cs : List Char} (hblanks : Blanks blanks)
    (hcs : StartsSolid cs) : skipBlanks (blanks ++ cs) = cs := by
  rw [hblanks.skip, hcs.skipBlanks]

theorem exists_blanks (cs : List Char) : ∃ blanks, Blanks blanks ∧ cs = blanks ++ skipBlanks cs :=
  ⟨cs.takeWhile isBlank, List.all_eq_true.mp List.all_takeWhile,
    List.takeWhile_append_dropWhile.symm⟩

theorem startsSolid_skipBlanks {cs rest : List Char} {c : Char}
    (hskip : skipBlanks cs = c :: rest) : StartsSolid (c :: rest) := by
  refine .cons ?_ rest
  have hhead := List.head?_dropWhile_not isBlank cs
  rw [show cs.dropWhile isBlank = c :: rest from hskip] at hhead
  simpa using hhead

theorem skipBlanks_skipBlanks (cs : List Char) : skipBlanks (skipBlanks cs) = skipBlanks cs := by
  cases hskip : skipBlanks cs with
  | nil => rfl
  | cons c rest => exact (startsSolid_skipBlanks hskip).skipBlanks

/-- A character that may stand behind a value without being part of it. -/
def IsMark (c : Char) : Prop := c = ',' ∨ c = ']' ∨ c = '}'

theorem endsNumber_of_isBlank {c : Char} (hc : isBlank c = true) (rest : List Char) :
    EndsNumber (c :: rest) := by
  simp only [isBlank, Bool.or_eq_true, beq_iff_eq] at hc
  rcases hc with ((rfl | rfl) | rfl) | rfl <;> exact endsNumber_cons (by decide)

theorem Blanks.endsNumber {blanks : List Char} (hblanks : Blanks blanks) : EndsNumber blanks := by
  cases blanks with
  | nil => exact endsNumber_nil
  | cons blank blanks => exact endsNumber_of_isBlank (hblanks blank (by simp)) blanks

theorem Blanks.endsNumber_mark {blanks : List Char} (hblanks : Blanks blanks) {c : Char}
    (hc : IsMark c) (rest : List Char) : EndsNumber (blanks ++ c :: rest) := by
  cases blanks with
  | nil => rcases hc with rfl | rfl | rfl <;> exact endsNumber_cons (by decide)
  | cons blank blanks => exact endsNumber_of_isBlank (hblanks blank (by simp)) _

/-! ## Strings -/

/-- The characters between two quotes stand for a text. -/
inductive SpellsText : List Char → List Char → Prop where
  | nil : SpellsText [] []
  | plain {c raw text} : c ≠ '"' → c ≠ '\\' → 0x20 ≤ c.toNat → SpellsText raw text →
      SpellsText (c :: raw) (c :: text)
  | letter {letter c raw text} : unescape? letter = some c → SpellsText raw text →
      SpellsText ('\\' :: letter :: raw) (c :: text)
  | unit {h₁ h₂ h₃ h₄ unit raw text} : hexUnit? h₁ h₂ h₃ h₄ = some unit →
      ¬ (0xD800 ≤ unit ∧ unit ≤ 0xDFFF) → SpellsText raw text →
      SpellsText ('\\' :: 'u' :: h₁ :: h₂ :: h₃ :: h₄ :: raw) (Char.ofNat unit :: text)
  | pair {h₁ h₂ h₃ h₄ k₁ k₂ k₃ k₄ unit low raw text} : hexUnit? h₁ h₂ h₃ h₄ = some unit →
      0xD800 ≤ unit ∧ unit ≤ 0xDBFF → hexUnit? k₁ k₂ k₃ k₄ = some low →
      0xDC00 ≤ low ∧ low ≤ 0xDFFF → SpellsText raw text →
      SpellsText
        ('\\' :: 'u' :: h₁ :: h₂ :: h₃ :: h₄ :: '\\' :: 'u' :: k₁ :: k₂ :: k₃ :: k₄ :: raw)
        (Char.ofNat (0x10000 + (unit - 0xD800) * 0x400 + (low - 0xDC00)) :: text)

theorem consChar_eq_ok {c : Char} {result : Result (List Char × List Char)}
    {text rest : List Char} (hok : consChar c result = .ok (text, rest)) :
    ∃ tail, text = c :: tail ∧ result = .ok (tail, rest) := by
  cases result with
  | error failure => cases hok
  | ok pair =>
      obtain ⟨tail, rest'⟩ := pair
      cases hok
      exact ⟨tail, rfl, rfl⟩

theorem readString_of_spellsText {raw text : List Char} (hraw : SpellsText raw text)
    (rest : List Char) : readString (raw ++ '"' :: rest) = .ok (text, rest) := by
  induction hraw with
  | nil => exact readString_quote rest
  | @plain c raw text hquote hslash hcontrol _ ih =>
      rw [List.cons_append, readString.eq_def]
      simp only [if_neg hquote, if_neg hslash, if_neg (Nat.not_lt.mpr hcontrol), ih]
      rfl
  | @letter letter c raw text hletter _ ih =>
      -- the reader looks for code units first
      have hunit : letter ≠ 'u' := by
        rintro rfl
        have hnone : unescape? 'u' = none := by decide
        rw [hnone] at hletter
        cases hletter
      rw [List.cons_append, List.cons_append, readString_letter hunit hletter, ih]
      rfl
  | @unit h₁ h₂ h₃ h₄ unit raw text hhex hsurrogate _ ih =>
      have hlow : ¬ (0xDC00 ≤ unit ∧ unit ≤ 0xDFFF) := by omega
      have hhigh : ¬ (0xD800 ≤ unit ∧ unit ≤ 0xDBFF) := by omega
      simp only [List.cons_append]
      rw [readString.eq_def]
      simp only [if_neg (show '\\' ≠ '"' by decide), hhex, if_neg hlow, if_neg hhigh, if_true, ih]
      rfl
  | @pair h₁ h₂ h₃ h₄ k₁ k₂ k₃ k₄ unit low raw text hhex hunit hhex' hlow _ ih =>
      have hnot : ¬ (0xDC00 ≤ unit ∧ unit ≤ 0xDFFF) := by omega
      simp only [List.cons_append]
      rw [readString.eq_def]
      simp only [if_neg (show '\\' ≠ '"' by decide), hhex, hhex', if_neg hnot, if_pos hunit,
        if_pos hlow, if_true, ih]
      rfl

@[simp]
theorem failAt_ne_ok {α : Type} {error : GrammarError} {cs : List Char} {result : α × List Char} :
    failAt error cs ≠ .ok result := by
  intro hok
  cases hok

@[simp]
theorem failPast_ne_ok {α : Type} {error : GrammarError} {cs : List Char}
    {result : α × List Char} : failPast error cs ≠ .ok result := by
  intro hok
  cases hok

@[simp]
theorem failHex_ne_ok {α : Type} {cs : List Char} {result : α × List Char} :
    failHex cs ≠ .ok result := by
  unfold failHex
  split
  · exact failAt_ne_ok
  · intro hok
    cases hok

theorem spellsText_of_readString {cs text rest : List Char}
    (hread : readString cs = .ok (text, rest)) :
    ∃ raw, cs = raw ++ '"' :: rest ∧ SpellsText raw text := by
  fun_induction readString cs generalizing text rest with
  | case2 rest' =>
      cases hread
      exact ⟨[], rfl, .nil⟩
  | case9 h₁ h₂ h₃ h₄ unit hhex _ hunit k₁ k₂ k₃ k₄ rest' low hhex' hlow _ ih =>
      obtain ⟨tail, rfl, htail⟩ := consChar_eq_ok hread
      obtain ⟨raw, rfl, hraw⟩ := ih htail
      exact ⟨_, rfl, .pair hhex hunit hhex' hlow hraw⟩
  | case14 h₁ h₂ h₃ h₄ rest' unit hhex hlow hhigh _ ih =>
      obtain ⟨tail, rfl, htail⟩ := consChar_eq_ok hread
      obtain ⟨raw, rfl, hraw⟩ := ih htail
      exact ⟨_, rfl, .unit hhex (by omega) hraw⟩
  | case16 letter rest' _ c hletter _ ih =>
      obtain ⟨tail, rfl, htail⟩ := consChar_eq_ok hread
      obtain ⟨raw, rfl, hraw⟩ := ih htail
      exact ⟨_, rfl, .letter hletter hraw⟩
  | case19 c rest' hquote hslash hcontrol ih =>
      obtain ⟨tail, rfl, htail⟩ := consChar_eq_ok hread
      obtain ⟨raw, rfl, hraw⟩ := ih htail
      exact ⟨_, rfl, .plain hquote hslash (Nat.not_lt.mp hcontrol) hraw⟩
  | _ => simp at hread

/-! ## Numbers -/

/-- The characters of an exponent, with its digits as they stand. -/
inductive SpellsExponent : List Char → Option (Bool × List Char) → Prop where
  | absent : SpellsExponent [] none
  | unsigned {letter digits} : letter = 'e' ∨ letter = 'E' →
      SpellsExponent (letter :: digits) (some (false, digits))
  | signed {letter digits} (negative : Bool) : letter = 'e' ∨ letter = 'E' →
      SpellsExponent (letter :: (if negative then '-' else '+') :: digits)
        (some (negative, digits))

/-- The characters of a number with the given parts. -/
def SpellsNumeral (cs : List Char) (numeral : Numeral) : Prop :=
  numeral.WellFormed ∧ ∃ exponent, SpellsExponent exponent numeral.exponent ∧
    cs = Decimal.withSign numeral.negative
      (numeral.whole ++ (fractionText numeral.fraction ++ exponent))

theorem isDigit_ne_sign {c : Char} (hc : isDigit c = true) : c ≠ '+' ∧ c ≠ '-' := by
  constructor
  · rintro rfl
    exact absurd hc (by decide)
  · rintro rfl
    exact absurd hc (by decide)

theorem readExponent_of_spells {raw : List Char} {exponent : Option (Bool × List Char)}
    (hraw : SpellsExponent raw exponent)
    (hexponent : ∀ part ∈ exponent, part.2 ≠ [] ∧ ∀ c ∈ part.2, isDigit c = true)
    {rest : List Char} (hrest : EndsNumber rest) :
    readExponent (raw ++ rest) = .ok (exponent, rest) := by
  cases hraw with
  | absent => exact readExponent_append hexponent hrest
  | @unsigned letter digits hletter =>
      obtain ⟨hne, hdigits⟩ := hexponent (false, digits) rfl
      have hspan : spanDigits (digits ++ rest) = (digits, rest) :=
        spanDigits_append hdigits fun c hc => (hrest c hc).1
      obtain ⟨d, tail, rfl⟩ := List.exists_cons_of_ne_nil hne
      obtain ⟨hplus, hminus⟩ := isDigit_ne_sign (hdigits d (by simp))
      rw [List.cons_append] at hspan
      simp [readExponent, hletter, hplus, hminus, hspan]
  | @signed letter digits negative hletter =>
      obtain ⟨hne, hdigits⟩ := hexponent (negative, digits) rfl
      have hspan : spanDigits (digits ++ rest) = (digits, rest) :=
        spanDigits_append hdigits fun c hc => (hrest c hc).1
      obtain ⟨d, tail, rfl⟩ := List.exists_cons_of_ne_nil hne
      rw [List.cons_append] at hspan
      cases negative <;> simp [readExponent, hletter, hspan]

theorem SpellsExponent.head? {raw : List Char} {exponent : Option (Bool × List Char)}
    (hraw : SpellsExponent raw exponent) {rest : List Char} (hrest : EndsNumber rest) :
    ∀ c ∈ (raw ++ rest).head?, isDigit c = false ∧ c ≠ '.' := by
  intro c hc
  cases hraw with
  | absent => exact ⟨(hrest c hc).1, (hrest c hc).2.1⟩
  | unsigned hletter =>
      simp only [List.cons_append, List.head?_cons, Option.mem_def, Option.some.injEq] at hc
      subst hc
      rcases hletter with rfl | rfl <;> decide
  | signed negative hletter =>
      simp only [List.cons_append, List.head?_cons, Option.mem_def, Option.some.injEq] at hc
      subst hc
      rcases hletter with rfl | rfl <;> decide

theorem readNumeral_of_spells {cs : List Char} {numeral : Numeral}
    (hcs : SpellsNumeral cs numeral) {rest : List Char} (hrest : EndsNumber rest) :
    readNumeral (cs ++ rest) = .ok (numeral, rest) := by
  obtain ⟨hwell, raw, hraw, rfl⟩ := hcs
  obtain ⟨negative, whole, fraction, exponent⟩ := numeral
  have hbehind := hraw.head? hrest
  have hexponent := readExponent_of_spells hraw hwell.exponent hrest
  have hfraction := readFraction_append hwell.fraction hbehind
  have hwhole := readWhole_append hwell.whole hwell.first
    (head?_fractionText_append fraction fun c hc => (hbehind c hc).1)
  simp only at hexponent hfraction hwhole
  cases negative with
  | true =>
      simp only [Decimal.withSign, if_true, List.cons_append, List.append_assoc, readNumeral,
        hwhole, hfraction, hexponent, bind, Except.bind, pure, Except.pure]
  | false =>
      obtain ⟨c, tail, hcons⟩ : ∃ c tail, whole = c :: tail := by
        rcases hwell.first with hzero | ⟨c, tail, hcons, -⟩
        · exact ⟨'0', [], hzero⟩
        · exact ⟨c, tail, hcons⟩
      subst hcons
      have hminus := (isDigit_ne_sign (hwell.whole c (by simp))).2
      simp only [List.cons_append] at hwhole
      simp [Decimal.withSign, readNumeral, hminus, hwhole, hfraction, hexponent, bind, Except.bind,
        pure, Except.pure]

theorem digits_of_spanDigits {cs digits rest : List Char}
    (hspan : spanDigits cs = (digits, rest)) :
    cs = digits ++ rest ∧ ∀ c ∈ digits, isDigit c = true := by
  cases hspan
  exact ⟨List.takeWhile_append_dropWhile.symm, List.all_eq_true.mp List.all_takeWhile⟩

theorem whole_of_readWhole {cs whole rest : List Char} (hread : readWhole cs = .ok (whole, rest)) :
    cs = whole ++ rest ∧ (∀ c ∈ whole, isDigit c = true) ∧
      (whole = ['0'] ∨ ∃ c tail, whole = c :: tail ∧ c ≠ '0') := by
  revert hread
  fun_cases readWhole cs with
  | case3 d tail hdigit =>
      rintro ⟨⟩
      exact ⟨rfl, List.forall_mem_singleton.mpr (by decide), .inl rfl⟩
  | case4 =>
      rintro ⟨⟩
      exact ⟨rfl, List.forall_mem_singleton.mpr (by decide), .inl rfl⟩
  | case5 c tail hzero hdigit digits rest' hspan =>
      rintro ⟨⟩
      obtain ⟨rfl, hdigits⟩ := digits_of_spanDigits hspan
      refine ⟨rfl, ?_, .inr ⟨c, digits, rfl, hzero⟩⟩
      intro d hd
      rcases List.mem_cons.mp hd with rfl | hmem
      · exact hdigit
      · exact hdigits d hmem
  | _ => simp

theorem fraction_of_readFraction {cs rest : List Char} {fraction : Option (List Char)}
    (hread : readFraction cs = .ok (fraction, rest)) :
    cs = fractionText fraction ++ rest ∧
      ∀ digits ∈ fraction, digits ≠ [] ∧ ∀ c ∈ digits, isDigit c = true := by
  revert hread
  fun_cases readFraction cs with
  | case3 tail digits rest' _ hne hspan =>
      rintro ⟨⟩
      obtain ⟨rfl, hdigits⟩ := digits_of_spanDigits hspan
      refine ⟨rfl, ?_⟩
      rintro _ ⟨⟩
      exact ⟨hne, hdigits⟩
  | case4 =>
      rintro ⟨⟩
      exact ⟨rfl, by simp⟩
  | _ => simp

theorem exponent_of_readExponent {cs rest : List Char} {exponent : Option (Bool × List Char)}
    (hread : readExponent cs = .ok (exponent, rest)) :
    ∃ raw, cs = raw ++ rest ∧ SpellsExponent raw exponent ∧
      ∀ part ∈ exponent, part.2 ≠ [] ∧ ∀ c ∈ part.2, isDigit c = true := by
  revert hread
  fun_cases readExponent cs with
  | case1 =>
      rintro ⟨⟩
      exact ⟨[], rfl, .absent, by simp⟩
  | case4 letter tail hletter negative tail' hsign digits rest' _ hne hspan =>
      rintro ⟨⟩
      obtain ⟨rfl, hdigits⟩ := digits_of_spanDigits hspan
      have hparts : ∀ part ∈ some (negative, digits), part.2 ≠ [] ∧
          ∀ c ∈ part.2, isDigit c = true := by
        rintro _ ⟨⟩
        exact ⟨hne, hdigits⟩
      split at hsign
      · cases hsign
        exact ⟨_, rfl, .signed false hletter, hparts⟩
      · cases hsign
        exact ⟨_, rfl, .signed true hletter, hparts⟩
      · cases hsign
        exact ⟨_, rfl, .unsigned hletter, hparts⟩
  | case5 =>
      rintro ⟨⟩
      exact ⟨[], rfl, .absent, by simp⟩
  | _ => simp

theorem parts_of_readNumeral {cs rest : List Char} {numeral : Numeral}
    (hread : readNumeral cs = .ok (numeral, rest)) :
    ∃ tail behind after, cs = Decimal.withSign numeral.negative tail ∧
      readWhole tail = .ok (numeral.whole, behind) ∧
      readFraction behind = .ok (numeral.fraction, after) ∧
      readExponent after = .ok (numeral.exponent, rest) := by
  by_cases hminus : ∃ tail, cs = '-' :: tail
  · obtain ⟨tail, rfl⟩ := hminus
    simp only [readNumeral, bind_ok_iff] at hread
    obtain ⟨⟨whole, behind⟩, hwhole, ⟨fraction, after⟩, hfraction, ⟨exponent, _⟩, hexponent,
      hdone⟩ := hread
    cases hdone
    exact ⟨tail, behind, after, rfl, hwhole, hfraction, hexponent⟩
  · have hsign : ∀ tail, cs = '-' :: tail → False := fun tail heq => hminus ⟨tail, heq⟩
    simp only [readNumeral, bind_ok_iff] at hread
    obtain ⟨⟨whole, behind⟩, hwhole, ⟨fraction, after⟩, hfraction, ⟨exponent, _⟩, hexponent,
      hdone⟩ := hread
    cases hdone
    exact ⟨cs, behind, after, rfl, hwhole, hfraction, hexponent⟩

theorem spells_of_readNumeral {cs rest : List Char} {numeral : Numeral}
    (hread : readNumeral cs = .ok (numeral, rest)) :
    ∃ front, cs = front ++ rest ∧ SpellsNumeral front numeral := by
  obtain ⟨tail, behind, after, rfl, hwhole, hfraction, hexponent⟩ := parts_of_readNumeral hread
  obtain ⟨rfl, hdigits, hfirst⟩ := whole_of_readWhole hwhole
  obtain ⟨rfl, hpoint⟩ := fraction_of_readFraction hfraction
  obtain ⟨raw, rfl, hraw, hpart⟩ := exponent_of_readExponent hexponent
  refine ⟨Decimal.withSign numeral.negative
      (numeral.whole ++ (fractionText numeral.fraction ++ raw)), ?_,
    ⟨hdigits, hfirst, hpoint, hpart⟩, raw, hraw, rfl⟩
  cases numeral.negative <;> simp [Decimal.withSign]

/-! ## Scalars -/

/-- The text of a value without parts. -/
inductive SpellsScalar : List Char → Value → Prop where
  | null : SpellsScalar "null".toList .null
  | true : SpellsScalar "true".toList (.bool true)
  | false : SpellsScalar "false".toList (.bool false)
  | string {raw text} : SpellsText raw text →
      SpellsScalar ('"' :: (raw ++ ['"'])) (.string (String.ofList text))
  | number {cs numeral value} : SpellsNumeral cs numeral → numeral.value = .ok value →
      SpellsScalar cs value

theorem Numeral.depth_wholeValue (numeral : Numeral) (n : Nat) :
    (numeral.wholeValue n).depth = 0 := by
  unfold Numeral.wholeValue
  split_ifs <;> rfl

theorem Numeral.depth_scaledValue {numeral : Numeral} {significand : Nat} {exponent : Int}
    {value : Value} (hvalue : numeral.scaledValue significand exponent = .ok value) :
    value.depth = 0 := by
  unfold Numeral.scaledValue at hvalue
  split at hvalue
  · cases hvalue
    rfl
  · cases hvalue

theorem Numeral.depth_value {numeral : Numeral} {value : Value}
    (hvalue : numeral.value = .ok value) : value.depth = 0 := by
  revert hvalue
  fun_cases Numeral.value numeral with
  | case1 =>
      rintro ⟨⟩
      exact numeral.depth_wholeValue _
  | case2 => exact numeral.depth_scaledValue
  | case3 => exact numeral.depth_scaledValue
  | case4 =>
      rintro ⟨⟩
      rfl
  | case5 => nofun

theorem SpellsScalar.depth {cs : List Char} {value : Value} (hcs : SpellsScalar cs value) :
    value.depth = 0 := by
  cases hcs with
  | number _ hvalue => exact Numeral.depth_value hvalue
  | _ => rfl

theorem eq_append_of_readWord {word cs rest : List Char}
    (hread : readWord word cs = .ok ((), rest)) : cs = word ++ rest := by
  fun_induction readWord word cs with
  | case1 =>
      cases hread
      rfl
  | case3 word c cs ih => rw [ih hread, List.cons_append]
  | _ => simp at hread

theorem SpellsNumeral.startsNumeral {cs : List Char} {numeral : Numeral}
    (hcs : SpellsNumeral cs numeral) : StartsNumeral cs := by
  obtain ⟨hwell, raw, -, rfl⟩ := hcs
  cases numeral.negative with
  | true => exact ⟨'-', _, rfl, .inl rfl⟩
  | false =>
      rcases hwell.first with hzero | ⟨c, tail, hcons, -⟩
      · rw [hzero]
        exact ⟨'0', _, rfl, .inr rfl⟩
      · have hc : isDigit c = true := hwell.whole c (by simp [hcons])
        rw [hcons]
        exact ⟨c, _, rfl, .inr hc⟩

theorem SpellsScalar.startsItem {cs : List Char} {value : Value} (hcs : SpellsScalar cs value) :
    StartsItem cs := by
  cases hcs with
  | null => exact ⟨'n', _, rfl, by decide⟩
  | true => exact ⟨'t', _, rfl, by decide⟩
  | false => exact ⟨'f', _, rfl, by decide⟩
  | string => exact ⟨'"', _, rfl, by decide⟩
  | number hcs hvalue => simpa using hcs.startsNumeral.startsItem []

theorem readValue_of_spellsScalar {cs : List Char} {value : Value} (hcs : SpellsScalar cs value)
    (limit : Nat) {rest : List Char} (hrest : EndsNumber rest) :
    readValue limit (cs ++ rest) = .ok (value, rest) := by
  cases hcs with
  | null =>
      rw [readValue.eq_def]
      rfl
  | true =>
      rw [readValue.eq_def]
      rfl
  | false =>
      rw [readValue.eq_def]
      rfl
  | @string raw text hraw =>
      have hread := readString_of_spellsText hraw rest
      have hsolid : skipBlanks ('"' :: (raw ++ '"' :: rest)) = '"' :: (raw ++ '"' :: rest) :=
        (StartsSolid.cons (by decide) _).skipBlanks
      rw [List.cons_append, List.append_assoc, List.singleton_append, readValue.eq_def]
      simp only [hsolid, if_true, if_neg (show '"' ≠ 'n' by decide),
        if_neg (show '"' ≠ 't' by decide), if_neg (show '"' ≠ 'f' by decide), hread, Except.map]
  | number hcs hvalue =>
      rw [readValue_numeral limit hcs.startsNumeral]
      simp only [readNumber, readNumeral_of_spells hcs hrest, hvalue, bind, Except.bind, pure,
        Except.pure]

end Json
end SyntaxDump

import Mathlib.Tactic
import SyntaxDump.Json.Writer
import SyntaxDump.Proofs.Json.Number
import SyntaxDump.Proofs.Json.Value

/-!
# The nesting of a text

How deep brackets and braces are nested can be seen from a text alone, if the
ones inside strings are left out.  For a written value it is the depth of the
value, in both styles.
-/

namespace SyntaxDump
namespace Json

inductive Place where
  | outside
  | inString
  /-- in a string, behind a backslash -/
  | escaped
deriving DecidableEq, Repr

/-- The largest number of containers open at once in the rest of a text, with
`level` of them open now. -/
def peak : Place → (level : Nat) → List Char → Nat
  | _, level, [] => level
  | .outside, level, c :: cs =>
      if c = '"' then peak .inString level cs
      else if c = '[' ∨ c = '{' then peak .outside (level + 1) cs
      else if c = ']' ∨ c = '}' then max level (peak .outside (level - 1) cs)
      else peak .outside level cs
  | .inString, level, c :: cs =>
      if c = '"' then peak .outside level cs
      else if c = '\\' then peak .escaped level cs
      else peak .inString level cs
  | .escaped, level, _ :: cs => peak .inString level cs

/-- How deep the objects and arrays of a text are nested. -/
def nesting (text : String) : Nat := peak .outside 0 text.toList

theorem level_le_peak (place : Place) (level : Nat) (cs : List Char) :
    level ≤ peak place level cs := by
  induction cs generalizing place level with
  | nil => cases place <;> simp [peak]
  | cons c cs ih =>
      cases place with
      | outside =>
          simp only [peak]
          split_ifs
          · exact ih .inString level
          · exact le_trans (Nat.le_succ level) (ih .outside (level + 1))
          · exact le_max_left level _
          · exact ih .outside level
      | inString =>
          simp only [peak]
          split_ifs
          · exact ih .outside level
          · exact ih .escaped level
          · exact ih .inString level
      | escaped => exact ih .inString level

/-! ## Texts that nest nothing -/

def IsFlat (c : Char) : Prop := c ≠ '"' ∧ c ≠ '[' ∧ c ≠ '{' ∧ c ≠ ']' ∧ c ≠ '}'

instance (c : Char) : Decidable (IsFlat c) :=
  inferInstanceAs (Decidable (c ≠ '"' ∧ c ≠ '[' ∧ c ≠ '{' ∧ c ≠ ']' ∧ c ≠ '}'))

theorem isFlat_of_isDigit {c : Char} (hc : Decimal.isDigit c = true) : IsFlat c := by
  refine ⟨?_, ?_, ?_, ?_, ?_⟩ <;>
    · rintro rfl
      exact absurd hc (by decide)

theorem peak_flat {front : List Char} (hfront : ∀ c ∈ front, IsFlat c) (level : Nat)
    (rest : List Char) : peak .outside level (front ++ rest) = peak .outside level rest := by
  induction front with
  | nil => rfl
  | cons c front ih =>
      obtain ⟨hquote, hbracket, hbrace, hbracket', hbrace'⟩ := hfront c (by simp)
      rw [List.cons_append, peak, if_neg hquote, if_neg (by simp [hbracket, hbrace]),
        if_neg (by simp [hbracket', hbrace'])]
      exact ih fun d hd => hfront d (List.mem_cons_of_mem _ hd)

theorem isFlat_break (style : Style) (depth : Nat) : ∀ c ∈ style.break depth, IsFlat c := by
  cases style with
  | compact => simp [Style.break]
  | pretty =>
      intro c hc
      rcases List.mem_cons.mp hc with heq | hspace
      · subst heq
        decide
      · rw [List.eq_of_mem_replicate hspace]
        decide

theorem isFlat_colon (style : Style) : ∀ c ∈ style.colon, IsFlat c := by
  cases style <;> simp [Style.colon, IsFlat]

theorem isFlat_numeralText {numeral : Numeral} (hnumeral : numeral.WellFormed) :
    ∀ c ∈ numeral.text, IsFlat c := by
  have hdigits : ∀ c ∈ numeral.whole ++
      (fractionText numeral.fraction ++ exponentText numeral.exponent), IsFlat c := by
    intro c hc
    rcases List.mem_append.mp hc with hwhole | hrest
    · exact isFlat_of_isDigit (hnumeral.whole c hwhole)
    · rcases List.mem_append.mp hrest with hfraction | hexponent
      · cases hsome : numeral.fraction with
        | none => simp [hsome, fractionText] at hfraction
        | some digits =>
            rw [hsome, fractionText] at hfraction
            rcases List.mem_cons.mp hfraction with heq | hdigit
            · subst heq
              decide
            · exact isFlat_of_isDigit ((hnumeral.fraction digits hsome).2 c hdigit)
      · cases hsome : numeral.exponent with
        | none => simp [hsome, exponentText] at hexponent
        | some part =>
            obtain ⟨negative, digits⟩ := part
            rw [hsome, exponentText] at hexponent
            rcases List.mem_cons.mp hexponent with heq | htail
            · subst heq
              decide
            · rcases List.mem_cons.mp htail with heq | hdigit
              · subst heq
                cases negative <;> decide
              · exact isFlat_of_isDigit ((hnumeral.exponent _ hsome).2 c hdigit)
  unfold Numeral.text Decimal.withSign
  split_ifs
  · intro c hc
    rcases List.mem_cons.mp hc with heq | htail
    · subst heq
      decide
    · exact hdigits c htail
  · exact hdigits

/-! ## Strings -/

theorem peak_escape (c : Char) (level : Nat) (rest : List Char) :
    peak .inString level (escape c ++ rest) = peak .inString level rest := by
  have hdigits : ∀ n < 32, hexDigit (n / 16) ≠ '"' ∧ hexDigit (n / 16) ≠ '\\' ∧
      hexDigit (n % 16) ≠ '"' ∧ hexDigit (n % 16) ≠ '\\' := by decide
  unfold escape
  split_ifs with hquote hslash _ _ _ _ _ hcontrol
  any_goals rfl
  · obtain ⟨h₁, h₂, h₃, h₄⟩ := hdigits c.toNat hcontrol
    simp [peak, h₁, h₂, h₃, h₄]
  · simp [peak, hquote, hslash]

theorem peak_flatMap_escape (cs : List Char) (level : Nat) (rest : List Char) :
    peak .inString level (cs.flatMap escape ++ rest) = peak .inString level rest := by
  induction cs with
  | nil => rfl
  | cons c cs ih => rw [List.flatMap_cons, List.append_assoc, peak_escape, ih]

theorem peak_stringText (s : String) (level : Nat) (rest : List Char) :
    peak .outside level (stringText s ++ rest) = peak .outside level rest := by
  rw [stringText, List.cons_append, peak, if_pos rfl, List.append_assoc, peak_flatMap_escape]
  rfl

/-! ## Values -/

/-- Does the scanner find the depth of the value, whatever stands around it? -/
def Peaks (style : Style) (value : Value) : Prop :=
  ∀ level depth rest, peak .outside level (writeOnto style value depth rest) =
    max (level + value.depth) (peak .outside level rest)

theorem peaks_of_flat {style : Style} {value : Value} {text : List Char}
    (hscalar : value.depth = 0) (hflat : ∀ c ∈ text, IsFlat c)
    (htext : ∀ depth rest, writeOnto style value depth rest = text ++ rest) :
    Peaks style value := by
  intro level depth rest
  rw [htext, peak_flat hflat, hscalar, Nat.add_zero, max_eq_right (level_le_peak _ _ _)]

theorem peak_break (style : Style) (level depth : Nat) (cs : List Char) :
    peak .outside level (style.break depth ++ cs) = peak .outside level cs :=
  peak_flat (isFlat_break style depth) level cs

theorem peak_writeItems {style : Style} {items : List Value}
    (hitems : ∀ item ∈ items, Peaks style item) (level depth : Nat) (rest : List Char) :
    peak .outside level (writeItems style items depth rest) =
      max (level + Value.depthItems items) (peak .outside level rest) := by
  induction items with
  | nil => rw [writeItems, Value.depthItems, Nat.add_zero, max_eq_right (level_le_peak _ _ _)]
  | cons item items ih =>
      have hcomma : ∀ cs, peak .outside level (',' :: cs) = peak .outside level cs := fun cs => rfl
      have htail := ih fun other hmem => hitems other (List.mem_cons_of_mem _ hmem)
      rw [writeItems, hcomma, peak_break, hitems item (by simp), htail, Value.depthItems]
      omega

theorem peak_writeMembers {style : Style} {members : List (String × Value)}
    (hmembers : ∀ member ∈ members, Peaks style member.2) (level depth : Nat)
    (rest : List Char) :
    peak .outside level (writeMembers style members depth rest) =
      max (level + Value.depthMembers members) (peak .outside level rest) := by
  induction members with
  | nil => rw [writeMembers, Value.depthMembers, Nat.add_zero, max_eq_right (level_le_peak _ _ _)]
  | cons member members ih =>
      obtain ⟨name, value⟩ := member
      have hcomma : ∀ cs, peak .outside level (',' :: cs) = peak .outside level cs := fun cs => rfl
      have hvalue : Peaks style value := hmembers (name, value) (by simp)
      have htail := ih fun other hmem => hmembers other (List.mem_cons_of_mem _ hmem)
      rw [writeMembers, hcomma, peak_break, peak_stringText, peak_flat (isFlat_colon style),
        hvalue, htail, Value.depthMembers]
      omega

theorem peak_close (style : Style) {close : Char} (hclose : close = ']' ∨ close = '}')
    (level depth : Nat) (rest : List Char) :
    peak .outside (level + 1) (style.break depth ++ close :: rest) =
      max (level + 1) (peak .outside level rest) := by
  rw [peak_break]
  rcases hclose with heq | heq <;>
    · subst heq
      simp [peak]

theorem peaks (style : Style) {value : Value} (hvalue : value.Writable) : Peaks style value := by
  induction value using Value.nestedInduction with
  | null => exact peaks_of_flat rfl (by simp [IsFlat]) fun _ _ => rfl
  | bool b => cases b <;> exact peaks_of_flat rfl (by simp [IsFlat]) fun _ _ => rfl
  | integer i =>
      refine peaks_of_flat rfl ?_ fun _ _ => rfl
      rw [integerDigits_eq_text]
      exact isFlat_numeralText (wellFormed_digits _ _)
  | float x =>
      obtain ⟨numeral, htext, hwell, -⟩ := floatText_eq_text hvalue
      refine peaks_of_flat rfl ?_ fun _ _ => rfl
      rw [htext]
      exact isFlat_numeralText hwell
  | string s =>
      intro level depth rest
      rw [writeOnto, peak_stringText]
      exact (max_eq_right (level_le_peak _ _ _)).symm
  | array items ih =>
      have hitems := Value.writableItems_iff.mp hvalue
      intro level depth rest
      cases items with
      | nil => simp [writeOnto, peak, Value.depth, Value.depthItems]
      | cons item items =>
          have hopen : ∀ cs, peak .outside level ('[' :: cs) = peak .outside (level + 1) cs :=
            fun cs => rfl
          have htail := peak_writeItems
            (fun other hmem => ih other (List.mem_cons_of_mem _ hmem)
              (hitems other (List.mem_cons_of_mem _ hmem)))
            (level + 1) (depth + 1) (style.break depth ++ ']' :: rest)
          rw [writeOnto, hopen, peak_break, ih item (by simp) (hitems item (by simp)), htail,
            peak_close style (.inl rfl), Value.depth, Value.depthItems]
          omega
  | object members ih =>
      have hmembers := Value.writableMembers_iff.mp hvalue
      intro level depth rest
      cases members with
      | nil => simp [writeOnto, peak, Value.depth, Value.depthMembers]
      | cons member members =>
          obtain ⟨name, value⟩ := member
          have hopen : ∀ cs, peak .outside level ('{' :: cs) = peak .outside (level + 1) cs :=
            fun cs => rfl
          have hfirst : Peaks style value := ih (name, value) (by simp) (hmembers _ (by simp))
          have htail := peak_writeMembers
            (fun other hmem => ih other (List.mem_cons_of_mem _ hmem)
              (hmembers other (List.mem_cons_of_mem _ hmem)))
            (level + 1) (depth + 1) (style.break depth ++ '}' :: rest)
          rw [writeOnto, hopen, peak_break, peak_stringText, peak_flat (isFlat_colon style),
            hfirst, htail, peak_close style (.inr rfl), Value.depth, Value.depthMembers]
          omega

theorem nesting_text (style : Style) {value : Value} (hvalue : value.Writable) :
    nesting (value.text style) = value.depth := by
  rw [nesting, Value.text, String.toList_ofList, write, peaks style hvalue, Nat.zero_add, peak,
    Nat.max_zero]

end Json
end SyntaxDump

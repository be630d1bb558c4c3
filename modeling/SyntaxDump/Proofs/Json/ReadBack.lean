import Mathlib.Tactic
import SyntaxDump.Json.Reader
import SyntaxDump.Proofs.Json.Number
import SyntaxDump.Proofs.Json.Value

/-!
# What is written is read back

Reading undoes writing in both styles, for every value whose numbers can be
written and for every text that may follow it.  The nesting limit decides
between two outcomes: a value within it is read back, with doubles replaced by
what their own text reads as, and a value beyond it is an error, whatever else
it holds.

The loops over items and members do not know what is done with an element, so
they are treated once for any state.  The statement about one element enters
as a hypothesis that has both outcomes.
-/

namespace SyntaxDump
namespace Json

/-! ## Strings -/

theorem hexUnit?_hexDigit : ∀ n < 32,
    hexUnit? '0' '0' (hexDigit (n / 16)) (hexDigit (n % 16)) = some n := by
  decide

theorem readString_quote (rest : List Char) : readString ('"' :: rest) = .ok ([], rest) := by
  rw [readString.eq_def]
  simp only [if_true]

theorem readString_letter {letter c : Char} (hletter : letter ≠ 'u')
    (hc : unescape? letter = some c) (rest : List Char) :
    readString ('\\' :: letter :: rest) = consChar c (readString rest) := by
  rw [readString.eq_def]
  simp only [if_neg (show '\\' ≠ '"' by decide), if_true, if_neg hletter, hc]

theorem readString_control {n : Nat} (hn : n < 32) (rest : List Char) :
    readString ('\\' :: 'u' :: '0' :: '0' :: hexDigit (n / 16) :: hexDigit (n % 16) :: rest) =
      consChar (Char.ofNat n) (readString rest) := by
  have hlow : ¬ (0xDC00 ≤ n ∧ n ≤ 0xDFFF) := by omega
  have hhigh : ¬ (0xD800 ≤ n ∧ n ≤ 0xDBFF) := by omega
  rw [readString.eq_def]
  simp only [if_neg (show '\\' ≠ '"' by decide), hexUnit?_hexDigit n hn, if_neg hlow,
    if_neg hhigh, if_true]

theorem readString_escape (c : Char) (rest : List Char) :
    readString (escape c ++ rest) = consChar c (readString rest) := by
  unfold escape
  split_ifs with hquote hslash hback hfeed hline hreturn htab hcontrol
  · subst hquote
    exact readString_letter (by decide) (by decide) rest
  · subst hslash
    exact readString_letter (by decide) (by decide) rest
  · subst hback
    exact readString_letter (by decide) (by decide) rest
  · subst hfeed
    exact readString_letter (by decide) (by decide) rest
  · subst hline
    exact readString_letter (by decide) (by decide) rest
  · subst hreturn
    exact readString_letter (by decide) (by decide) rest
  · subst htab
    exact readString_letter (by decide) (by decide) rest
  · have hread := readString_control hcontrol rest
    rw [Char.ofNat_toNat] at hread
    exact hread
  · simp only [List.cons_append, List.nil_append]
    rw [readString.eq_def]
    simp only [if_neg hquote, if_neg hslash, if_neg hcontrol]

theorem readString_flatMap_escape (cs rest : List Char) :
    readString (cs.flatMap escape ++ '"' :: rest) = .ok (cs, rest) := by
  induction cs with
  | nil => exact readString_quote rest
  | cons c cs ih =>
      rw [List.flatMap_cons, List.append_assoc, readString_escape, ih]
      rfl

theorem readString_stringText (s : String) (rest : List Char) :
    readString ((stringText s ++ rest).drop 1) = .ok (s.toList, rest) := by
  rw [stringText, List.cons_append, List.drop_one, List.tail_cons, List.append_assoc]
  exact readString_flatMap_escape s.toList rest

/-! ## Blanks -/

def StartsSolid (cs : List Char) : Prop := ∃ c rest, cs = c :: rest ∧ isBlank c = false

theorem StartsSolid.cons {c : Char} (hc : isBlank c = false) (rest : List Char) :
    StartsSolid (c :: rest) := ⟨c, rest, rfl, hc⟩

theorem StartsSolid.skipBlanks {cs : List Char} (hcs : StartsSolid cs) :
    skipBlanks cs = cs := by
  obtain ⟨c, rest, rfl, hc⟩ := hcs
  simp [Json.skipBlanks, hc]

theorem skipBlanks_break (style : Style) (depth : Nat) (cs : List Char) :
    skipBlanks (style.break depth ++ cs) = skipBlanks cs := by
  cases style with
  | compact => rfl
  | pretty =>
      have hspaces : ∀ c ∈ '\n' :: List.replicate (2 * depth) ' ', isBlank c = true := by
        intro c hc
        rcases List.mem_cons.mp hc with heq | hspace
        · subst heq
          decide
        · rw [List.eq_of_mem_replicate hspace]
          decide
      exact List.dropWhile_append_of_pos hspaces

theorem readColon_colon (style : Style) (cs : List Char) :
    ∃ rest, readColon (style.colon ++ cs) = .ok ((), rest) ∧ skipBlanks rest = skipBlanks cs := by
  cases style with
  | compact => exact ⟨cs, rfl, rfl⟩
  | pretty => exact ⟨' ' :: cs, rfl, rfl⟩

theorem endsNumber_break (style : Style) (depth : Nat) {c : Char} (rest : List Char)
    (hc : Decimal.isDigit c = false ∧ c ≠ '.' ∧ c ≠ 'e' ∧ c ≠ 'E') :
    EndsNumber (style.break depth ++ c :: rest) := by
  cases style with
  | compact => exact endsNumber_cons hc
  | pretty => exact endsNumber_cons (by decide)

/-! ## Two outcomes -/

/-- A reader that gives the value and leaves the rest if the value fits, and
fails otherwise. -/
def Yields {α : Type} (result : Result (α × List Char)) (fits : Prop) (value : α)
    (rest : List Char) : Prop :=
  (fits → result = .ok (value, rest)) ∧ (¬ fits → ∃ failure, result = .error failure)

theorem Yields.of_ok {α : Type} {result : Result (α × List Char)} {fits : Prop} {value : α}
    {rest : List Char} (hfits : fits) (hresult : result = .ok (value, rest)) :
    Yields result fits value rest :=
  ⟨fun _ => hresult, fun hnot => absurd hfits hnot⟩

theorem Yields.map {α β : Type} {result : Result (α × List Char)} {fits : Prop} {value : α}
    {rest : List Char} (hyields : Yields result fits value rest) (f : α → β) :
    Yields (result.map fun pair => (f pair.1, pair.2)) fits (f value) rest := by
  constructor
  · intro hfits
    rw [hyields.1 hfits]
    rfl
  · intro hnot
    obtain ⟨failure, hfailure⟩ := hyields.2 hnot
    exact ⟨failure, by rw [hfailure]; rfl⟩

theorem Yields.congr {α : Type} {result : Result (α × List Char)} {fits fits' : Prop} {value : α}
    {rest : List Char} (hyields : Yields result fits value rest) (hiff : fits ↔ fits') :
    Yields result fits' value rest := by
  rw [← propext hiff]
  exact hyields

/-! ## The first character of a value -/

def StartsItem (cs : List Char) : Prop :=
  ∃ c rest, cs = c :: rest ∧ isBlank c = false ∧ c ≠ ']'

theorem StartsItem.startsSolid {cs : List Char} (hcs : StartsItem cs) : StartsSolid cs := by
  obtain ⟨c, rest, hcons, hc, -⟩ := hcs
  exact ⟨c, rest, hcons, hc⟩

theorem StartsNumeral.startsItem {cs : List Char} (hcs : StartsNumeral cs) (rest : List Char) :
    StartsItem (cs ++ rest) := by
  obtain ⟨c, tail, rfl, hc⟩ := hcs
  refine ⟨c, tail ++ rest, rfl, ?_⟩
  rcases hc with hminus | hdigit
  · subst hminus
    decide
  · have hrange := (Decimal.isDigit_iff c).mp hdigit
    constructor
    · unfold isBlank
      have hblank : ∀ d : Char, d.toNat < 48 → (c == d) = false := by
        intro d hd
        rw [beq_eq_false_iff_ne]
        rintro rfl
        omega
      rw [hblank ' ' (by decide), hblank '\t' (by decide), hblank '\n' (by decide),
        hblank '\r' (by decide)]
      rfl
    · rintro rfl
      exact absurd hdigit (by decide)

theorem startsItem_writeOnto (style : Style) {value : Value} (hvalue : value.Writable)
    (depth : Nat) (rest : List Char) :
    StartsItem (writeOnto style value depth rest) := by
  cases value with
  | null => exact ⟨'n', _, rfl, by decide⟩
  | bool b => cases b <;> exact ⟨_, _, rfl, by decide⟩
  | integer i =>
      have hstart := (wellFormed_digits (decide (i < 0)) i.natAbs).startsNumeral
      rw [← integerDigits_eq_text] at hstart
      exact hstart.startsItem rest
  | float x =>
      obtain ⟨numeral, htext, hwell, -⟩ := floatText_eq_text hvalue
      have hstart := hwell.startsNumeral
      rw [← htext] at hstart
      exact hstart.startsItem rest
  | string s => exact ⟨'"', _, rfl, by decide⟩
  | array items => cases items <;> exact ⟨'[', _, rfl, by decide⟩
  | object members => cases members <;> exact ⟨'{', _, rfl, by decide⟩

/-! ## The end of a text -/

section

variable {style : Style}

/-- What is written in front of a text does not depend on that text. -/
def Prepends (style : Style) (value : Value) : Prop :=
  ∀ depth front back, writeOnto style value depth (front ++ back) =
    writeOnto style value depth front ++ back

theorem writeItems_append {items : List Value} (hitems : ∀ item ∈ items, Prepends style item)
    (depth : Nat) (front back : List Char) :
    writeItems style items depth (front ++ back) = writeItems style items depth front ++ back := by
  induction items with
  | nil => rfl
  | cons item items ih =>
      have htail := ih fun other hmem => hitems other (List.mem_cons_of_mem _ hmem)
      have hitem := hitems item (by simp) depth (writeItems style items depth front) back
      rw [writeItems, writeItems, htail, hitem, List.cons_append, List.append_assoc]

theorem writeMembers_append {members : List (String × Value)}
    (hmembers : ∀ member ∈ members, Prepends style member.2) (depth : Nat)
    (front back : List Char) :
    writeMembers style members depth (front ++ back) =
      writeMembers style members depth front ++ back := by
  induction members with
  | nil => rfl
  | cons member members ih =>
      obtain ⟨name, value⟩ := member
      have htail := ih fun other hmem => hmembers other (List.mem_cons_of_mem _ hmem)
      have hvalue : Prepends style value := hmembers (name, value) (by simp)
      rw [writeMembers, writeMembers, htail, hvalue]
      simp only [List.cons_append, List.append_assoc]

theorem prepends (style : Style) (value : Value) : Prepends style value := by
  induction value using Value.nestedInduction with
  | array items ih =>
      intro depth front back
      cases items with
      | nil => rfl
      | cons item items =>
          have htail := writeItems_append fun other hmem => ih other (List.mem_cons_of_mem _ hmem)
          have hsplit : style.break depth ++ ']' :: (front ++ back) =
              (style.break depth ++ ']' :: front) ++ back := by simp
          rw [writeOnto, writeOnto, hsplit, htail, ih item (by simp)]
          simp only [List.cons_append, List.append_assoc]
  | object members ih =>
      intro depth front back
      cases members with
      | nil => rfl
      | cons member members =>
          obtain ⟨name, value⟩ := member
          have hvalue : Prepends style value := ih (name, value) (by simp)
          have htail := writeMembers_append fun other hmem => ih other (List.mem_cons_of_mem _ hmem)
          have hsplit : style.break depth ++ '}' :: (front ++ back) =
              (style.break depth ++ '}' :: front) ++ back := by simp
          rw [writeOnto, writeOnto, hsplit, htail, hvalue]
          simp only [List.cons_append, List.append_assoc]
  | _ =>
      intro depth front back
      simp only [writeOnto, List.append_assoc]

theorem getLast?_write_object (style : Style) (members : List (String × Value)) (depth : Nat) :
    (write style (.object members) depth).getLast? = some '}' := by
  have hlast : ∀ front : List Char, (front ++ ['}']).getLast? = some '}' := by simp
  cases members with
  | nil => rfl
  | cons member members =>
      obtain ⟨name, value⟩ := member
      have hmembers := writeMembers_append (fun member (_ : member ∈ members) =>
        prepends style member.2) (depth + 1) (style.break depth) ['}']
      rw [write, writeOnto, hmembers, prepends style value]
      simp only [← List.append_assoc, ← List.cons_append]
      exact hlast _

end

/-! ## The length of a text -/

def Grows (style : Style) (value : Value) : Prop :=
  ∀ depth rest, rest.length ≤ (writeOnto style value depth rest).length

theorem length_writeItems_of_grows {style : Style} {items : List Value}
    (hall : ∀ item ∈ items, Grows style item) (depth : Nat) (rest : List Char) :
    items.length + rest.length ≤ (writeItems style items depth rest).length := by
  induction items with
  | nil => simp [writeItems]
  | cons item items ih =>
      have hitem := hall item (by simp) depth (writeItems style items depth rest)
      have htail := ih fun other hother => hall other (List.mem_cons_of_mem _ hother)
      simp only [writeItems, List.length_cons, List.length_append]
      omega

theorem length_writeMembers_of_grows {style : Style} {members : List (String × Value)}
    (hall : ∀ member ∈ members, Grows style member.2) (depth : Nat) (rest : List Char) :
    members.length + rest.length ≤ (writeMembers style members depth rest).length := by
  induction members with
  | nil => simp [writeMembers]
  | cons member members ih =>
      obtain ⟨name, value⟩ := member
      have hvalue : Grows style value := hall (name, value) (by simp)
      have hhead := hvalue depth (writeMembers style members depth rest)
      have htail := ih fun other hother => hall other (List.mem_cons_of_mem _ hother)
      simp only [writeMembers, List.length_cons, List.length_append]
      omega

theorem grows (style : Style) (value : Value) : Grows style value := by
  intro depth rest
  have happend := prepends style value depth [] rest
  rw [List.nil_append] at happend
  rw [happend, List.length_append]
  omega

/-! ## The loop over items -/

section Items

variable {σ : Type} {item : σ → List Char → Result (σ × List Char)}

def itemsEnd (style : Style) (depth outer : Nat) (rest : List Char) (items : List Value) :
    List Char :=
  writeItems style items depth (style.break outer ++ ']' :: rest)

theorem endsNumber_itemsEnd (style : Style) (depth outer : Nat) (rest : List Char)
    (items : List Value) : EndsNumber (itemsEnd style depth outer rest items) := by
  cases items with
  | nil => exact endsNumber_break style outer rest (by decide)
  | cons value items => exact endsNumber_cons (by decide)

variable {style : Style} {depth outer : Nat} {rest : List Char}

theorem readItemsFrom_last {first : Char} {bound cs : List Char} {state next : σ}
    (hitem : item state cs = .ok (next, itemsEnd style depth outer rest [])) :
    readItemsFrom item (first :: bound) state cs = .ok (next, rest) := by
  have hblank : skipBlanks (itemsEnd style depth outer rest []) = ']' :: rest := by
    rw [itemsEnd, writeItems, skipBlanks_break]
    rfl
  rw [readItemsFrom, hitem]
  simp only [bind, Except.bind, hblank, if_true]

theorem readItemsFrom_next {first : Char} {bound cs : List Char} {state next : σ}
    {other : Value} {items : List Value} (hother : other.Writable)
    (hitem : item state cs = .ok (next, itemsEnd style depth outer rest (other :: items))) :
    readItemsFrom item (first :: bound) state cs =
      readItemsFrom item bound next
        (writeOnto style other depth (itemsEnd style depth outer rest items)) := by
  have hstart := startsItem_writeOnto style hother depth (itemsEnd style depth outer rest items)
  have hblank : skipBlanks (itemsEnd style depth outer rest (other :: items)) =
      ',' :: (style.break depth ++
        writeOnto style other depth (itemsEnd style depth outer rest items)) := rfl
  have hnext := skipBlanks_break style depth
    (writeOnto style other depth (itemsEnd style depth outer rest items))
  rw [hstart.startsSolid.skipBlanks] at hnext
  obtain ⟨c, tail, hcons, -, hne⟩ := hstart
  rw [hcons] at hblank hnext ⊢
  rw [readItemsFrom, hitem]
  simp only [bind, Except.bind, hblank, hnext, if_neg (show ',' ≠ ']' by decide), if_true,
    if_neg hne]

theorem readItemsFrom_error {first : Char} {bound cs : List Char} {state : σ} {failure : Failure}
    (hitem : item state cs = .error failure) :
    readItemsFrom item (first :: bound) state cs = .error failure := by
  rw [readItemsFrom, hitem]
  rfl

/-- The loop over items has the two outcomes of its items. -/
theorem readItemsFrom_yields {fits : Value → Prop} {next : σ → Value → σ}
    {value : Value} {items : List Value}
    (hitem : ∀ other ∈ value :: items, ∀ state rest, EndsNumber rest →
      Yields (item state (writeOnto style other depth rest)) (fits other) (next state other) rest)
    (hwritable : ∀ other ∈ items, other.Writable)
    {bound : List Char} (hbound : items.length < bound.length)
    (outer : Nat) (rest : List Char) (state : σ) :
    Yields
      (readItemsFrom item bound state
        (writeOnto style value depth (itemsEnd style depth outer rest items)))
      (∀ other ∈ value :: items, fits other) ((value :: items).foldl next state) rest := by
  induction items generalizing value bound state with
  | nil =>
      obtain ⟨first, bound, rfl⟩ := List.exists_cons_of_length_pos (by omega : 0 < bound.length)
      have hfirst := hitem value (by simp) state _ (endsNumber_itemsEnd style depth outer rest [])
      constructor
      · intro hfits
        exact readItemsFrom_last (hfirst.1 (hfits value (by simp)))
      · intro hnot
        obtain ⟨failure, hfailure⟩ := hfirst.2 (by simpa using hnot)
        exact ⟨failure, readItemsFrom_error hfailure⟩
  | cons other items ih =>
      obtain ⟨first, bound, rfl⟩ := List.exists_cons_of_length_pos (by omega : 0 < bound.length)
      have hfirst := hitem value (by simp) state _
        (endsNumber_itemsEnd style depth outer rest (other :: items))
      have htail := ih (fun another hmem => hitem another (List.mem_cons_of_mem _ hmem))
        (fun another hmem => hwritable another (List.mem_cons_of_mem _ hmem))
        (show items.length < bound.length by simpa using hbound) (next state value)
      by_cases hvalue : fits value
      · rw [readItemsFrom_next (hwritable other (by simp)) (hfirst.1 hvalue)]
        exact htail.congr (by simp [hvalue])
      · obtain ⟨failure, hfailure⟩ := hfirst.2 hvalue
        constructor
        · intro hfits
          exact absurd (hfits value (by simp)) hvalue
        · intro hnot
          exact ⟨failure, readItemsFrom_error hfailure⟩

theorem readItems_yields {fits : Value → Prop} {next : σ → Value → σ}
    {value : Value} {items : List Value}
    (hitem : ∀ other ∈ value :: items, ∀ state rest, EndsNumber rest →
      Yields (item state (writeOnto style other depth rest)) (fits other) (next state other) rest)
    (hwritable : ∀ other ∈ value :: items, other.Writable)
    (outer : Nat) (rest : List Char) (state : σ) :
    Yields
      (readItems item state
        (style.break depth ++ writeOnto style value depth (itemsEnd style depth outer rest items)))
      (∀ other ∈ value :: items, fits other) ((value :: items).foldl next state) rest := by
  have hstart := startsItem_writeOnto style (hwritable value (by simp)) depth
    (itemsEnd style depth outer rest items)
  -- every item leaves a character of its own, so the text is bound enough
  have hbound : items.length <
      (writeOnto style value depth (itemsEnd style depth outer rest items)).length := by
    have hitems := length_writeItems_of_grows (fun other (_ : other ∈ items) => grows style other)
      depth (style.break outer ++ ']' :: rest)
    have hvalue := grows style value depth (itemsEnd style depth outer rest items)
    simp only [List.length_append, List.length_cons] at hitems
    rw [itemsEnd] at hvalue ⊢
    omega
  have hfrom := readItemsFrom_yields hitem
    (fun other hmem => hwritable other (List.mem_cons_of_mem _ hmem)) hbound outer rest state
  rw [readItems, skipBlanks_break, hstart.startsSolid.skipBlanks]
  obtain ⟨c, tail, hcons, -, hne⟩ := hstart
  rw [hcons] at hfrom ⊢
  simp only [if_neg hne]
  exact hfrom

end Items

/-! ## The loop over members -/

section Members

variable {σ : Type} {member : σ → String → List Char → Result (σ × List Char)}

def membersEnd (style : Style) (depth outer : Nat) (rest : List Char)
    (members : List (String × Value)) : List Char :=
  writeMembers style members depth (style.break outer ++ '}' :: rest)

theorem endsNumber_membersEnd (style : Style) (depth outer : Nat) (rest : List Char)
    (members : List (String × Value)) : EndsNumber (membersEnd style depth outer rest members) := by
  cases members with
  | nil => exact endsNumber_break style outer rest (by decide)
  | cons entry members => exact endsNumber_cons (by decide)

def valueOnto (style : Style) (value : Value) (depth : Nat) (rest : List Char) : List Char :=
  style.colon ++ writeOnto style value depth rest

def memberOnto (style : Style) (entry : String × Value) (depth : Nat) (rest : List Char) :
    List Char :=
  stringText entry.1 ++ valueOnto style entry.2 depth rest

theorem memberOnto_eq_quote (style : Style) (entry : String × Value) (depth : Nat)
    (rest : List Char) :
    ∃ tail, memberOnto style entry depth rest = '"' :: tail :=
  ⟨_, rfl⟩

theorem readString_memberOnto (style : Style) (entry : String × Value) (depth : Nat)
    (rest : List Char) :
    readString ((memberOnto style entry depth rest).drop 1) =
      .ok (entry.1.toList, valueOnto style entry.2 depth rest) :=
  readString_stringText entry.1 _

variable {style : Style} {depth outer : Nat} {rest : List Char}

theorem readMembersFrom_last {first : Char} {bound : List Char} {state next : σ}
    {entry : String × Value} {cs : List Char}
    (hmember : member state entry.1 (valueOnto style entry.2 depth cs) =
      .ok (next, membersEnd style depth outer rest [])) :
    readMembersFrom member (first :: bound) state (memberOnto style entry depth cs) =
      .ok (next, rest) := by
  have hblank : skipBlanks (membersEnd style depth outer rest []) = '}' :: rest := by
    rw [membersEnd, writeMembers, skipBlanks_break]
    rfl
  rw [readMembersFrom, readString_memberOnto]
  simp only [bind, Except.bind, String.ofList_toList, hmember, hblank, if_true]

theorem readMembersFrom_next {first : Char} {bound : List Char} {state next : σ}
    {entry other : String × Value} {members : List (String × Value)} {cs : List Char}
    (hmember : member state entry.1 (valueOnto style entry.2 depth cs) =
      .ok (next, membersEnd style depth outer rest (other :: members))) :
    readMembersFrom member (first :: bound) state (memberOnto style entry depth cs) =
      readMembersFrom member bound next
        (memberOnto style other depth (membersEnd style depth outer rest members)) := by
  have hblank : skipBlanks (membersEnd style depth outer rest (other :: members)) =
      ',' :: (style.break depth ++
        memberOnto style other depth (membersEnd style depth outer rest members)) := rfl
  have hnext := skipBlanks_break style depth
    (memberOnto style other depth (membersEnd style depth outer rest members))
  obtain ⟨tail, hcons⟩ := memberOnto_eq_quote style other depth
    (membersEnd style depth outer rest members)
  rw [hcons] at hblank hnext ⊢
  rw [(StartsSolid.cons (by decide) tail).skipBlanks] at hnext
  rw [readMembersFrom, readString_memberOnto]
  simp only [bind, Except.bind, String.ofList_toList, hmember, hblank, hnext,
    if_neg (show ',' ≠ '}' by decide), if_true]

theorem readMembersFrom_error {first : Char} {bound : List Char} {state : σ}
    {entry : String × Value} {cs : List Char} {failure : Failure}
    (hmember : member state entry.1 (valueOnto style entry.2 depth cs) = .error failure) :
    readMembersFrom member (first :: bound) state (memberOnto style entry depth cs) =
      .error failure := by
  rw [readMembersFrom, readString_memberOnto]
  simp only [bind, Except.bind, String.ofList_toList, hmember]

theorem readMembersFrom_yields {fits : String × Value → Prop} {next : σ → String × Value → σ}
    {entry : String × Value} {members : List (String × Value)}
    (hmember : ∀ other ∈ entry :: members, ∀ state rest, EndsNumber rest →
      Yields (member state other.1 (valueOnto style other.2 depth rest)) (fits other)
        (next state other) rest)
    {bound : List Char} (hbound : members.length < bound.length)
    (outer : Nat) (rest : List Char) (state : σ) :
    Yields
      (readMembersFrom member bound state
        (memberOnto style entry depth (membersEnd style depth outer rest members)))
      (∀ other ∈ entry :: members, fits other) ((entry :: members).foldl next state) rest := by
  induction members generalizing entry bound state with
  | nil =>
      obtain ⟨first, bound, rfl⟩ := List.exists_cons_of_length_pos (by omega : 0 < bound.length)
      have hfirst := hmember entry (by simp) state _
        (endsNumber_membersEnd style depth outer rest [])
      constructor
      · intro hfits
        exact readMembersFrom_last (hfirst.1 (hfits entry (by simp)))
      · intro hnot
        obtain ⟨failure, hfailure⟩ := hfirst.2 (by simpa using hnot)
        exact ⟨failure, readMembersFrom_error hfailure⟩
  | cons other members ih =>
      obtain ⟨first, bound, rfl⟩ := List.exists_cons_of_length_pos (by omega : 0 < bound.length)
      have hfirst := hmember entry (by simp) state _
        (endsNumber_membersEnd style depth outer rest (other :: members))
      have htail := ih (fun another hmem => hmember another (List.mem_cons_of_mem _ hmem))
        (show members.length < bound.length by simpa using hbound) (next state entry)
      by_cases hentry : fits entry
      · rw [readMembersFrom_next (hfirst.1 hentry)]
        exact htail.congr (by simp [hentry])
      · obtain ⟨failure, hfailure⟩ := hfirst.2 hentry
        constructor
        · intro hfits
          exact absurd (hfits entry (by simp)) hentry
        · intro hnot
          exact ⟨failure, readMembersFrom_error hfailure⟩

theorem length_lt_memberOnto (style : Style) (depth outer : Nat) (rest : List Char)
    (entry : String × Value) (members : List (String × Value)) :
    members.length <
      (memberOnto style entry depth (membersEnd style depth outer rest members)).length := by
  have hmembers := length_writeMembers_of_grows
    (fun other (_ : other ∈ members) => grows style other.2) depth
    (style.break outer ++ '}' :: rest)
  have hvalue := grows style entry.2 depth (membersEnd style depth outer rest members)
  simp only [List.length_append, List.length_cons] at hmembers
  simp only [memberOnto, valueOnto, List.length_append]
  rw [membersEnd] at hvalue ⊢
  omega

theorem readMembers_memberOnto (state : σ) (entry : String × Value) (cs : List Char) :
    readMembers member state (style.break depth ++ memberOnto style entry depth cs) =
      readMembersFrom member (memberOnto style entry depth cs) state
        (memberOnto style entry depth cs) := by
  obtain ⟨tail, hcons⟩ := memberOnto_eq_quote style entry depth cs
  rw [readMembers, skipBlanks_break, hcons, (StartsSolid.cons (by decide) tail).skipBlanks]
  simp only [if_neg (show '"' ≠ '}' by decide), if_true]

theorem readMembers_yields {fits : String × Value → Prop} {next : σ → String × Value → σ}
    {entry : String × Value} {members : List (String × Value)}
    (hmember : ∀ other ∈ entry :: members, ∀ state rest, EndsNumber rest →
      Yields (member state other.1 (valueOnto style other.2 depth rest)) (fits other)
        (next state other) rest)
    (outer : Nat) (rest : List Char) (state : σ) :
    Yields
      (readMembers member state
        (style.break depth ++ memberOnto style entry depth
          (membersEnd style depth outer rest members)))
      (∀ other ∈ entry :: members, fits other) ((entry :: members).foldl next state) rest := by
  rw [readMembers_memberOnto]
  exact readMembersFrom_yields hmember (length_lt_memberOnto style depth outer rest entry members)
    outer rest state

/-- The first member may be treated unlike the others, such as one that tells
how they are to be read. -/
theorem readMembers_yields_of_first {fits : String × Value → Prop}
    {next : σ → String × Value → σ} (entry : String × Value) {members : List (String × Value)}
    {state opened : σ} (outer : Nat) (rest : List Char)
    (hfirst : member state entry.1
        (valueOnto style entry.2 depth (membersEnd style depth outer rest members)) =
      .ok (opened, membersEnd style depth outer rest members))
    (hmember : ∀ other ∈ members, ∀ state rest, EndsNumber rest →
      Yields (member state other.1 (valueOnto style other.2 depth rest)) (fits other)
        (next state other) rest) :
    Yields
      (readMembers member state
        (style.break depth ++ memberOnto style entry depth
          (membersEnd style depth outer rest members)))
      (∀ other ∈ members, fits other) (members.foldl next opened) rest := by
  have hbound := length_lt_memberOnto style depth outer rest entry members
  obtain ⟨bound, hcons⟩ := memberOnto_eq_quote style entry depth
    (membersEnd style depth outer rest members)
  rw [readMembers_memberOnto]
  nth_rewrite 1 [hcons]
  rw [hcons, List.length_cons] at hbound
  cases members with
  | nil =>
      refine Yields.of_ok (by simp) ?_
      exact readMembersFrom_last hfirst
  | cons other members =>
      rw [readMembersFrom_next hfirst]
      rw [List.length_cons] at hbound
      exact readMembersFrom_yields hmember (by omega) outer rest opened

end Members

/-! ## Values -/

theorem readValue_skipBlanks (depth : Nat) {cs cs' : List Char}
    (hblank : skipBlanks cs = skipBlanks cs') : readValue depth cs = readValue depth cs' := by
  rw [readValue.eq_def, readValue.eq_def depth cs']
  simp only [hblank]

theorem collectMember_valueOnto {style : Style} {value result : Value} {limit depth : Nat}
    {rest : List Char} {fits : Prop}
    (hvalue : Yields (readValue limit (writeOnto style value depth rest)) fits result rest)
    (members : List (String × Value)) (name : String) :
    Yields (collectMember (readValue limit) members name (valueOnto style value depth rest)) fits
      ((name, result) :: members) rest := by
  obtain ⟨rest', hcolon, hblank⟩ := readColon_colon style (writeOnto style value depth rest)
  unfold collectMember valueOnto
  rw [hcolon]
  simp only [bind, Except.bind]
  rw [readValue_skipBlanks limit hblank]
  exact hvalue.map fun item => (name, item) :: members

theorem collectItem_writeOnto {style : Style} {value result : Value} {limit depth : Nat}
    {rest : List Char} {fits : Prop}
    (hvalue : Yields (readValue limit (writeOnto style value depth rest)) fits result rest)
    (items : List Value) :
    Yields (collectItem (readValue limit) items (writeOnto style value depth rest)) fits
      (result :: items) rest :=
  hvalue.map fun item => item :: items

theorem readValue_numeral (limit : Nat) {cs : List Char} (hcs : StartsNumeral cs)
    (rest : List Char) : readValue limit (cs ++ rest) = readNumber (cs ++ rest) := by
  have hstart := hcs.startsItem rest
  rw [readValue.eq_def]
  simp only [hstart.startsSolid.skipBlanks]
  obtain ⟨c, tail, rfl, hc⟩ := hcs
  have hletter : ∀ d : Char, Decimal.isDigit d = false → d ≠ '-' → c ≠ d := by
    rintro d hdigit hminus rfl
    rcases hc with heq | hdigit'
    · exact hminus heq
    · rw [hdigit] at hdigit'
      exact Bool.false_ne_true hdigit'
  simp only [List.cons_append, if_neg (hletter 'n' (by decide) (by decide)),
    if_neg (hletter 't' (by decide) (by decide)), if_neg (hletter 'f' (by decide) (by decide)),
    if_neg (hletter '"' (by decide) (by decide)), if_pos hc]

theorem readValue_string (limit : Nat) (s : String) (rest : List Char) :
    readValue limit (stringText s ++ rest) = .ok (.string s, rest) := by
  have hread := readString_stringText s rest
  obtain ⟨tail, hcons⟩ : ∃ tail, stringText s ++ rest = '"' :: tail := ⟨_, rfl⟩
  rw [hcons, List.drop_one, List.tail_cons] at hread
  rw [hcons, readValue.eq_def]
  simp only [(StartsSolid.cons (show isBlank '"' = false by decide) tail).skipBlanks, if_true,
    if_neg (show '"' ≠ 'n' by decide), if_neg (show '"' ≠ 't' by decide),
    if_neg (show '"' ≠ 'f' by decide), hread, Except.map, String.ofList_toList]

theorem readValue_array (limit : Nat) (cs : List Char) :
    readValue (limit + 1) ('[' :: cs) =
      (readItems (collectItem (readValue limit)) [] cs).map fun (items, rest) =>
        (.array items.reverse, rest) := by
  rw [readValue.eq_def]
  rfl

theorem readValue_object (limit : Nat) (cs : List Char) :
    readValue (limit + 1) ('{' :: cs) =
      (readMembers (collectMember (readValue limit)) [] cs).map fun (members, rest) =>
        (.object members.reverse, rest) := by
  rw [readValue.eq_def]
  rfl

theorem readValue_writeOnto_array {style : Style} {items : List Value}
    (hitems : ∀ item ∈ items, item.Writable)
    (ih : ∀ item ∈ items, ∀ limit depth rest, EndsNumber rest →
      Yields (readValue limit (writeOnto style item depth rest)) (item.depth ≤ limit)
        (item.mapFloats rereadFloat) rest)
    (limit depth : Nat) (rest : List Char) :
    Yields (readValue limit (writeOnto style (.array items) depth rest))
      ((Value.array items).depth ≤ limit) ((Value.array items).mapFloats rereadFloat) rest := by
  cases limit with
  | zero =>
      refine ⟨fun hfits => ?_, fun _ => ?_⟩
      · simp [Value.depth] at hfits
      · cases items <;> exact ⟨_, rfl⟩
  | succ limit =>
      cases items with
      | nil =>
          refine Yields.of_ok (by simp [Value.depth, Value.depthItems]) ?_
          rw [writeOnto, readValue_array]
          rfl
      | cons item items =>
          have hread := readItems_yields
            (fun other hmem state rest hrest =>
              collectItem_writeOnto (ih other hmem limit (depth + 1) rest hrest) state)
            hitems depth rest []
          rw [writeOnto, readValue_array]
          have hmap := hread.map fun items => Value.array items.reverse
          rw [List.foldl_flip_cons_eq_append] at hmap
          rw [Value.mapFloats, Value.mapFloatsItems_eq_map]
          simp only [List.append_nil, List.reverse_reverse] at hmap
          exact hmap.congr Value.depth_array_le_iff.symm

theorem readValue_writeOnto_object {style : Style} {members : List (String × Value)}
    (ih : ∀ member ∈ members, ∀ limit depth rest, EndsNumber rest →
      Yields (readValue limit (writeOnto style member.2 depth rest)) (member.2.depth ≤ limit)
        (member.2.mapFloats rereadFloat) rest)
    (limit depth : Nat) (rest : List Char) :
    Yields (readValue limit (writeOnto style (.object members) depth rest))
      ((Value.object members).depth ≤ limit) ((Value.object members).mapFloats rereadFloat)
      rest := by
  cases limit with
  | zero =>
      refine ⟨fun hfits => ?_, fun _ => ?_⟩
      · simp [Value.depth] at hfits
      · cases members <;> exact ⟨_, rfl⟩
  | succ limit =>
      cases members with
      | nil =>
          refine Yields.of_ok (by simp [Value.depth, Value.depthMembers]) ?_
          rw [writeOnto, readValue_object]
          rfl
      | cons entry members =>
          have hread := readMembers_yields
            (fun other hmem state rest hrest =>
              collectMember_valueOnto (ih other hmem limit (depth + 1) rest hrest) state other.1)
            depth rest []
          have hmap := hread.map fun members => Value.object members.reverse
          rw [List.foldl_flip_cons_eq_append] at hmap
          simp only [List.append_nil, List.reverse_reverse] at hmap
          rw [writeOnto, readValue_object, Value.mapFloats, Value.mapFloatsMembers_eq_map]
          exact hmap.congr Value.depth_object_le_iff.symm

/-- A written value is read back if it is nested no deeper than the limit, and
is an error otherwise. -/
theorem readValue_writeOnto (style : Style) {value : Value} (hvalue : value.Writable)
    (limit depth : Nat) {rest : List Char} (hrest : EndsNumber rest) :
    Yields (readValue limit (writeOnto style value depth rest)) (value.depth ≤ limit)
      (value.mapFloats rereadFloat) rest := by
  induction value using Value.nestedInduction generalizing limit depth rest with
  | null =>
      refine Yields.of_ok (Nat.zero_le limit) ?_
      rw [readValue.eq_def]
      rfl
  | bool b =>
      refine Yields.of_ok (Nat.zero_le limit) ?_
      rw [readValue.eq_def]
      cases b <;> rfl
  | integer i =>
      have hstart := (wellFormed_digits (decide (i < 0)) i.natAbs).startsNumeral
      rw [← integerDigits_eq_text] at hstart
      refine Yields.of_ok (Nat.zero_le limit) ?_
      rw [writeOnto, readValue_numeral limit hstart]
      exact readNumber_integerDigits hvalue hrest
  | float x =>
      obtain ⟨numeral, htext, hwell, -⟩ := floatText_eq_text hvalue
      have hstart := hwell.startsNumeral
      rw [← htext] at hstart
      refine Yields.of_ok (Nat.zero_le limit) ?_
      rw [writeOnto, readValue_numeral limit hstart]
      exact readNumber_floatText hvalue hrest
  | string s => exact Yields.of_ok (Nat.zero_le limit) (readValue_string limit s rest)
  | array items ih =>
      have hitems := Value.writableItems_iff.mp hvalue
      exact readValue_writeOnto_array hitems
        (fun item hmem limit depth rest hrest => ih item hmem (hitems item hmem) limit depth hrest)
        limit depth rest
  | object members ih =>
      have hmembers := Value.writableMembers_iff.mp hvalue
      exact readValue_writeOnto_object
        (fun member hmem limit depth rest hrest =>
          ih member hmem (hmembers member hmem) limit depth hrest)
        limit depth rest

end Json
end SyntaxDump

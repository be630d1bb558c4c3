import Mathlib.Tactic
import SyntaxDump.Proofs.Json.Token

/-!
# The grammar of texts

What it means that a text spells a value: blanks may stand around every token,
and the members of an object may come in any order and more than once.  The
reader agrees with the grammar in both directions.

The loops over items and members serve several readers, so the two directions
are stated for a loop over any reader that agrees with the spelling of a single
element.  The grammar of values is then tied by the number of containers that
may be nested.  The depth of a value tells which numbers are enough.
-/

namespace SyntaxDump
namespace Json

open Decimal (isDigit)

/-! ## Lists of elements -/

section Listed

variable {α σ : Type}

/-- Elements with commas between them and blanks around them. -/
inductive Listed (Spelled : List Char → α → Prop) : List Char → List α → Prop where
  | last {before front after a} : Blanks before → Spelled front a → Blanks after →
      Listed Spelled (before ++ (front ++ after)) [a]
  | cons {before front after a rest others} : Blanks before → Spelled front a → Blanks after →
      Listed Spelled rest others →
      Listed Spelled (before ++ (front ++ (after ++ ',' :: rest))) (a :: others)

/-- What stands between the brackets of a container. -/
inductive Enclosed (Spelled : List Char → α → Prop) : List Char → List α → Prop where
  | empty {body} : Blanks body → Enclosed Spelled body []
  | listed {body elements} : Listed Spelled body elements → Enclosed Spelled body elements

variable {Spelled : List Char → α → Prop}

theorem Listed.padded {blanks body : List Char} {elements : List α} (hblanks : Blanks blanks)
    (hbody : Listed Spelled body elements) : Listed Spelled (blanks ++ body) elements := by
  cases hbody with
  | last hbefore hfront hafter =>
      rw [← List.append_assoc]
      exact .last (hblanks.append hbefore) hfront hafter
  | cons hbefore hfront hafter hrest =>
      rw [← List.append_assoc]
      exact .cons (hblanks.append hbefore) hfront hafter hrest

theorem Listed.exists_spelled {body : List Char} {elements : List α}
    (hbody : Listed Spelled body elements) : ∀ a ∈ elements, ∃ front, Spelled front a := by
  induction hbody with
  | @last before front after a _ hfront _ =>
      intro b hb
      obtain rfl := List.mem_singleton.mp hb
      exact ⟨front, hfront⟩
  | @cons before front after a rest others _ hfront _ _ ih =>
      intro b hb
      rcases List.mem_cons.mp hb with rfl | hmem
      · exact ⟨front, hfront⟩
      · exact ih b hmem

theorem Listed.imp {Spelled' : List Char → α → Prop} {body : List Char} {elements : List α}
    (hbody : Listed Spelled body elements)
    (himp : ∀ a ∈ elements, ∀ front, Spelled front a → Spelled' front a) :
    Listed Spelled' body elements := by
  induction hbody with
  | last hbefore hfront hafter => exact .last hbefore (himp _ (by simp) _ hfront) hafter
  | cons hbefore hfront hafter _ ih =>
      exact .cons hbefore (himp _ (by simp) _ hfront) hafter
        (ih fun a ha => himp a (List.mem_cons_of_mem _ ha))

theorem Enclosed.exists_spelled {body : List Char} {elements : List α}
    (hbody : Enclosed Spelled body elements) : ∀ a ∈ elements, ∃ front, Spelled front a := by
  cases hbody with
  | empty => simp
  | listed hlisted => exact hlisted.exists_spelled

theorem Enclosed.imp {Spelled' : List Char → α → Prop} {body : List Char} {elements : List α}
    (hbody : Enclosed Spelled body elements)
    (himp : ∀ a ∈ elements, ∀ front, Spelled front a → Spelled' front a) :
    Enclosed Spelled' body elements := by
  cases hbody with
  | empty hblanks => exact .empty hblanks
  | listed hlisted => exact .listed (hlisted.imp himp)

theorem Listed.head {P : Char → Prop} (hsolid : ∀ c, P c → isBlank c = false)
    (hstarts : ∀ front a, Spelled front a → ∃ c tail, front = c :: tail ∧ P c)
    {body : List Char} {elements : List α} (hbody : Listed Spelled body elements)
    (rest : List Char) : ∃ c tail, skipBlanks (body ++ rest) = c :: tail ∧ P c := by
  have hskip : ∀ {before front : List Char} {a : α}, Blanks before → Spelled front a →
      ∀ behind, ∃ c tail, skipBlanks (before ++ (front ++ behind)) = c :: tail ∧ P c := by
    intro before front a hbefore hfront behind
    obtain ⟨c, tail, rfl, hc⟩ := hstarts front a hfront
    exact ⟨c, tail ++ behind, hbefore.skip_solid (.cons (hsolid c hc) _), hc⟩
  cases hbody with
  | last hbefore hfront hafter =>
      rw [List.append_assoc, List.append_assoc]
      exact hskip hbefore hfront _
  | cons hbefore hfront hafter hrest =>
      rw [List.append_assoc, List.append_assoc]
      exact hskip hbefore hfront _

-- every element but the last has a comma of its own
theorem Listed.length_le (hstarts : ∀ front a, Spelled front a → StartsSolid front)
    {body : List Char} {elements : List α} (hbody : Listed Spelled body elements)
    (rest : List Char) : elements.length ≤ (skipBlanks (body ++ rest)).length := by
  induction hbody with
  | @last before front after a hbefore hfront hafter =>
      have hsolid := (hstarts front a hfront).append (after ++ rest)
      rw [List.append_assoc, List.append_assoc, hbefore.skip_solid hsolid]
      obtain ⟨c, tail, hcons, -⟩ := hsolid
      rw [hcons]
      simp
  | @cons before front after a tail others hbefore hfront hafter _ ih =>
      have hskip : (skipBlanks (tail ++ rest)).length ≤ (tail ++ rest).length :=
        (List.dropWhile_sublist isBlank).length_le
      simp only [List.append_assoc, List.cons_append]
      rw [hbefore.skip_solid ((hstarts front a hfront).append _)]
      simp only [List.length_append, List.length_cons] at hskip ⊢
      omega

end Listed

section Items

variable {α σ : Type}

/-- A reader of single items agrees with how items are spelled, and `step` is
what an item does to the state. -/
structure ReadsItem (item : σ → List Char → Result (σ × List Char))
    (Spelled : List Char → α → Prop) (step : σ → α → Option σ) : Prop where
  starts : ∀ front a, Spelled front a → StartsItem front
  sound : ∀ {state cs next rest}, StartsSolid cs → item state cs = .ok (next, rest) →
    ∃ front a, cs = front ++ rest ∧ Spelled front a ∧ step state a = some next
  complete : ∀ {front a state next rest}, Spelled front a → step state a = some next →
    EndsNumber rest → item state (front ++ rest) = .ok (next, rest)

variable {item : σ → List Char → Result (σ × List Char)} {Spelled : List Char → α → Prop}
  {step : σ → α → Option σ}

theorem ReadsItem.readItemsFrom_sound (hitem : ReadsItem item Spelled step)
    {bound cs rest : List Char} {state final : σ} (hcs : StartsSolid cs)
    (hread : readItemsFrom item bound state cs = .ok (final, rest)) :
    ∃ body items, cs = body ++ ']' :: rest ∧ Listed Spelled body items ∧
      items.foldlM step state = some final := by
  -- every round of the loop uses up one character of the bound
  induction bound generalizing state cs with
  | nil => simp [readItemsFrom] at hread
  | cons _ bound ih =>
      rw [readItemsFrom, bind_ok_iff] at hread
      obtain ⟨⟨next, behind⟩, hfirst, hloop⟩ := hread
      obtain ⟨front, a, rfl, hfront, hstep⟩ := hitem.sound hcs hfirst
      obtain ⟨after, hafter, hbehind⟩ := exists_blanks behind
      simp only at hloop
      split at hloop
      · simp at hloop
      · rename_i c tail hskip
        rw [hskip] at hbehind
        subst hbehind
        split_ifs at hloop with hclose hcomma
        · subst hclose
          cases hloop
          refine ⟨[] ++ (front ++ after), [a], by simp, .last blanks_nil hfront hafter, ?_⟩
          simp [hstep]
        · subst hcomma
          obtain ⟨blanks, hblanks, htail⟩ := exists_blanks tail
          split at hloop
          · simp at hloop
          · rename_i d tail' hskip'
            rw [hskip'] at htail
            subst htail
            -- a comma must not come last
            split_ifs at hloop with hclose'
            · simp at hloop
            · obtain ⟨body, items, hbody, hlisted, hrun⟩ :=
                ih (startsSolid_skipBlanks hskip') hloop
              refine ⟨[] ++ (front ++ (after ++ ',' :: (blanks ++ body))), a :: items, ?_,
                .cons blanks_nil hfront hafter (hlisted.padded hblanks), ?_⟩
              · simp [hbody]
              · simp [hstep, hrun]
        · simp at hloop

theorem ReadsItem.readItemsFrom_complete (hitem : ReadsItem item Spelled step)
    {body : List Char} {items : List α} (hbody : Listed Spelled body items)
    {bound : List Char} (hbound : items.length ≤ bound.length) {state final : σ}
    (hrun : items.foldlM step state = some final) (rest : List Char) :
    readItemsFrom item bound state (skipBlanks (body ++ ']' :: rest)) = .ok (final, rest) := by
  -- the loop starts at the first item, so the blanks in front of it are skipped before
  induction hbody generalizing bound state with
  | @last before front after a hbefore hfront hafter =>
      obtain ⟨first, bound, rfl⟩ :=
        List.exists_cons_of_length_pos (Nat.lt_of_lt_of_le (by simp) hbound)
      have hstep : step state a = some final := by simpa using hrun
      have hclose : skipBlanks (after ++ ']' :: rest) = ']' :: rest :=
        hafter.skip_solid (.cons (by decide) rest)
      have hsolid := (hitem.starts front a hfront).startsSolid.append (after ++ ']' :: rest)
      have hfirst := hitem.complete hfront hstep (hafter.endsNumber_mark (.inr (.inl rfl)) rest)
      rw [List.append_assoc, List.append_assoc, hbefore.skip_solid hsolid, readItemsFrom, hfirst]
      simp only [bind, Except.bind, hclose, if_true]
  | @cons before front after a tail others hbefore hfront hafter hothers ih =>
      obtain ⟨first, bound, rfl⟩ :=
        List.exists_cons_of_length_pos (Nat.lt_of_lt_of_le (by simp) hbound)
      obtain ⟨next, hstep, hrest⟩ := Option.bind_eq_some_iff.mp hrun
      have hcomma : skipBlanks (after ++ ',' :: (tail ++ ']' :: rest)) =
          ',' :: (tail ++ ']' :: rest) := hafter.skip_solid (.cons (by decide) _)
      have hsolid := (hitem.starts front a hfront).startsSolid.append
        (after ++ ',' :: (tail ++ ']' :: rest))
      have hfirst := hitem.complete hfront hstep
        (hafter.endsNumber_mark (.inl rfl) (tail ++ ']' :: rest))
      have hloop := ih (by simpa using hbound) hrest
      obtain ⟨c, cs, hnext, -, hne⟩ := hothers.head (fun _ => And.left) hitem.starts (']' :: rest)
      rw [hnext] at hloop
      simp only [List.append_assoc, List.cons_append]
      rw [hbefore.skip_solid hsolid, readItemsFrom, hfirst]
      simp only [bind, Except.bind, hcomma, if_neg (show ',' ≠ ']' by decide), if_true, hnext,
        if_neg hne, hloop]

theorem ReadsItem.readItems_sound (hitem : ReadsItem item Spelled step)
    {cs rest : List Char} {state final : σ} (hread : readItems item state cs = .ok (final, rest)) :
    ∃ body items, cs = body ++ ']' :: rest ∧ Enclosed Spelled body items ∧
      items.foldlM step state = some final := by
  obtain ⟨blanks, hblanks, hcs⟩ := exists_blanks cs
  unfold readItems at hread
  split at hread
  · simp at hread
  · rename_i c tail hskip
    rw [hskip] at hcs
    subst hcs
    split_ifs at hread with hclose
    · subst hclose
      cases hread
      exact ⟨blanks, [], rfl, .empty hblanks, rfl⟩
    · obtain ⟨body, items, hbody, hlisted, hrun⟩ :=
        hitem.readItemsFrom_sound (startsSolid_skipBlanks hskip) hread
      exact ⟨blanks ++ body, items, by rw [hbody, List.append_assoc],
        .listed (hlisted.padded hblanks), hrun⟩

theorem ReadsItem.readItems_complete (hitem : ReadsItem item Spelled step)
    {body : List Char} {items : List α} (hbody : Enclosed Spelled body items) {state final : σ}
    (hrun : items.foldlM step state = some final) (rest : List Char) :
    readItems item state (body ++ ']' :: rest) = .ok (final, rest) := by
  cases hbody with
  | empty hblanks =>
      have hclose : skipBlanks (body ++ ']' :: rest) = ']' :: rest :=
        hblanks.skip_solid (.cons (by decide) rest)
      cases hrun
      simp only [readItems, hclose, if_true]
  | listed hlisted =>
      have hbound := hlisted.length_le
        (fun front a hfront => (hitem.starts front a hfront).startsSolid) (']' :: rest)
      have hloop := hitem.readItemsFrom_complete hlisted hbound hrun rest
      obtain ⟨c, tail, hskip, -, hne⟩ := hlisted.head (fun _ => And.left) hitem.starts (']' :: rest)
      rw [hskip] at hloop
      simp only [readItems, hskip, if_neg hne, hloop]

end Items

section Members

variable {σ : Type}

/-- What stands behind the name of a member: a colon and the value, with blanks
in front of both. -/
def SpellsBehind (Spelled : List Char → Value → Prop) (cs : List Char) (value : Value) : Prop :=
  ∃ before after front, Blanks before ∧ Blanks after ∧ Spelled front value ∧
    cs = before ++ ':' :: (after ++ front)

/-- A member of an object. -/
def SpellsMember (Spelled : List Char → Value → Prop) (cs : List Char)
    (member : String × Value) : Prop :=
  ∃ raw name behind, SpellsText raw name ∧ member.1 = String.ofList name ∧
    SpellsBehind Spelled behind member.2 ∧ cs = '"' :: (raw ++ '"' :: behind)

/-- What is done behind the name of a member agrees with how values are spelled,
and `step` is what the member does to the state. -/
structure ReadsMember (member : σ → String → List Char → Result (σ × List Char))
    (Spelled : List Char → Value → Prop) (step : σ → String × Value → Option σ) : Prop where
  sound : ∀ {state name cs next rest}, member state name cs = .ok (next, rest) →
    ∃ front value, cs = front ++ rest ∧ SpellsBehind Spelled front value ∧
      step state (name, value) = some next
  complete : ∀ {front name value state next rest}, SpellsBehind Spelled front value →
    step state (name, value) = some next → EndsNumber rest →
    member state name (front ++ rest) = .ok (next, rest)

variable {member : σ → String → List Char → Result (σ × List Char)}
  {Spelled : List Char → Value → Prop} {step : σ → String × Value → Option σ}

theorem SpellsMember.starts (front : List Char) (entry : String × Value)
    (hfront : SpellsMember Spelled front entry) : ∃ c tail, front = c :: tail ∧ c = '"' := by
  obtain ⟨raw, name, behind, -, -, -, rfl⟩ := hfront
  exact ⟨'"', _, rfl, rfl⟩

theorem isBlank_quote (c : Char) (hc : c = '"') : isBlank c = false := by
  subst hc
  decide

theorem SpellsMember.startsSolid (front : List Char) (entry : String × Value)
    (hfront : SpellsMember Spelled front entry) : StartsSolid front := by
  obtain ⟨c, tail, rfl, rfl⟩ := SpellsMember.starts front entry hfront
  exact .cons (by decide) tail

theorem ReadsMember.readMembersFrom_sound (hmember : ReadsMember member Spelled step)
    {bound cs rest : List Char} {state final : σ}
    (hread : readMembersFrom member bound state ('"' :: cs) = .ok (final, rest)) :
    ∃ body members, '"' :: cs = body ++ '}' :: rest ∧
      Listed (SpellsMember Spelled) body members ∧ members.foldlM step state = some final := by
  induction bound generalizing state cs with
  | nil => simp [readMembersFrom] at hread
  | cons _ bound ih =>
      rw [readMembersFrom, bind_ok_iff] at hread
      obtain ⟨⟨name, behind⟩, hname, hread⟩ := hread
      rw [bind_ok_iff] at hread
      obtain ⟨⟨next, behind'⟩, hfirst, hloop⟩ := hread
      obtain ⟨raw, hcs, hraw⟩ := spellsText_of_readString hname
      rw [List.drop_one, List.tail_cons] at hcs
      subst hcs
      obtain ⟨front, value, rfl, hfront, hstep⟩ := hmember.sound hfirst
      have hentry : SpellsMember Spelled ('"' :: (raw ++ '"' :: front))
          (String.ofList name, value) := ⟨raw, name, front, hraw, rfl, hfront, rfl⟩
      obtain ⟨after, hafter, hbehind⟩ := exists_blanks behind'
      simp only at hloop
      split at hloop
      · simp at hloop
      · rename_i c tail hskip
        rw [hskip] at hbehind
        subst hbehind
        split_ifs at hloop with hclose hcomma
        · subst hclose
          cases hloop
          refine ⟨[] ++ ('"' :: (raw ++ '"' :: front) ++ after), [(String.ofList name, value)],
            by simp, .last blanks_nil hentry hafter, ?_⟩
          simp [hstep]
        · subst hcomma
          obtain ⟨blanks, hblanks, htail⟩ := exists_blanks tail
          split at hloop
          · simp at hloop
          · rename_i d tail' hskip'
            rw [hskip'] at htail
            subst htail
            split_ifs at hloop with hquote hclose'
            · subst hquote
              obtain ⟨body, members, hbody, hlisted, hrun⟩ := ih hloop
              refine ⟨[] ++ ('"' :: (raw ++ '"' :: front) ++ (after ++ ',' :: (blanks ++ body))),
                (String.ofList name, value) :: members, ?_,
                .cons blanks_nil hentry hafter (hlisted.padded hblanks), ?_⟩
              · simp [hbody]
              · simp [hstep, hrun]
            · simp at hloop
            · simp at hloop
        · simp at hloop

theorem ReadsMember.readMembersFrom_complete (hmember : ReadsMember member Spelled step)
    {body : List Char} {members : List (String × Value)}
    (hbody : Listed (SpellsMember Spelled) body members)
    {bound : List Char} (hbound : members.length ≤ bound.length) {state final : σ}
    (hrun : members.foldlM step state = some final) (rest : List Char) :
    readMembersFrom member bound state (skipBlanks (body ++ '}' :: rest)) = .ok (final, rest) := by
  induction hbody generalizing bound state with
  | @last before front after entry hbefore hfront hafter =>
      obtain ⟨first, bound, rfl⟩ :=
        List.exists_cons_of_length_pos (Nat.lt_of_lt_of_le (by simp) hbound)
      have hstep : step state entry = some final := by simpa using hrun
      have hclose : skipBlanks (after ++ '}' :: rest) = '}' :: rest :=
        hafter.skip_solid (.cons (by decide) rest)
      have hsolid := (SpellsMember.startsSolid front entry hfront).append (after ++ '}' :: rest)
      obtain ⟨raw, name, behind, hraw, hname, hbehind, rfl⟩ := hfront
      obtain ⟨key, value⟩ := entry
      subst hname
      have hread := readString_of_spellsText hraw (behind ++ (after ++ '}' :: rest))
      have hfirst := hmember.complete hbehind hstep (hafter.endsNumber_mark (.inr (.inr rfl)) rest)
      rw [List.append_assoc, List.append_assoc, hbefore.skip_solid hsolid]
      simp only [List.cons_append, List.append_assoc, readMembersFrom, List.drop_one,
        List.tail_cons, hread, bind, Except.bind, hfirst, hclose, if_true]
  | @cons before front after entry tail others hbefore hfront hafter hothers ih =>
      obtain ⟨first, bound, rfl⟩ :=
        List.exists_cons_of_length_pos (Nat.lt_of_lt_of_le (by simp) hbound)
      obtain ⟨next, hstep, hrest⟩ := Option.bind_eq_some_iff.mp hrun
      have hcomma : skipBlanks (after ++ ',' :: (tail ++ '}' :: rest)) =
          ',' :: (tail ++ '}' :: rest) := hafter.skip_solid (.cons (by decide) _)
      have hsolid := (SpellsMember.startsSolid front entry hfront).append
        (after ++ ',' :: (tail ++ '}' :: rest))
      have hloop := ih (by simpa using hbound) hrest
      obtain ⟨c, cs, hnext, rfl⟩ := hothers.head isBlank_quote SpellsMember.starts ('}' :: rest)
      obtain ⟨raw, name, behind, hraw, hname, hbehind, rfl⟩ := hfront
      obtain ⟨key, value⟩ := entry
      subst hname
      have hread := readString_of_spellsText hraw
        (behind ++ (after ++ ',' :: (tail ++ '}' :: rest)))
      have hfirst := hmember.complete hbehind hstep
        (hafter.endsNumber_mark (.inl rfl) (tail ++ '}' :: rest))
      rw [hnext] at hloop
      simp only [List.append_assoc, List.cons_append] at hsolid ⊢
      rw [hbefore.skip_solid hsolid]
      simp only [readMembersFrom, List.drop_one, List.tail_cons, hread, bind, Except.bind, hfirst,
        hcomma, if_neg (show ',' ≠ '}' by decide), if_true, hnext, hloop]

theorem ReadsMember.readMembers_sound (hmember : ReadsMember member Spelled step)
    {cs rest : List Char} {state final : σ}
    (hread : readMembers member state cs = .ok (final, rest)) :
    ∃ body members, cs = body ++ '}' :: rest ∧ Enclosed (SpellsMember Spelled) body members ∧
      members.foldlM step state = some final := by
  obtain ⟨blanks, hblanks, hcs⟩ := exists_blanks cs
  unfold readMembers at hread
  split at hread
  · simp at hread
  · rename_i c tail hskip
    rw [hskip] at hcs
    subst hcs
    split_ifs at hread with hclose hquote
    · subst hclose
      cases hread
      exact ⟨blanks, [], rfl, .empty hblanks, rfl⟩
    · subst hquote
      obtain ⟨body, members, hbody, hlisted, hrun⟩ := hmember.readMembersFrom_sound hread
      exact ⟨blanks ++ body, members, by rw [hbody, List.append_assoc],
        .listed (hlisted.padded hblanks), hrun⟩
    · simp at hread

theorem ReadsMember.readMembers_complete (hmember : ReadsMember member Spelled step)
    {body : List Char} {members : List (String × Value)}
    (hbody : Enclosed (SpellsMember Spelled) body members) {state final : σ}
    (hrun : members.foldlM step state = some final) (rest : List Char) :
    readMembers member state (body ++ '}' :: rest) = .ok (final, rest) := by
  cases hbody with
  | empty hblanks =>
      have hclose : skipBlanks (body ++ '}' :: rest) = '}' :: rest :=
        hblanks.skip_solid (.cons (by decide) rest)
      cases hrun
      simp only [readMembers, hclose, if_true]
  | listed hlisted =>
      have hbound := hlisted.length_le SpellsMember.startsSolid ('}' :: rest)
      have hloop := hmember.readMembersFrom_complete hlisted hbound hrun rest
      obtain ⟨c, tail, hskip, rfl⟩ := hlisted.head isBlank_quote SpellsMember.starts ('}' :: rest)
      rw [hskip] at hloop
      simp only [readMembers, hskip, if_neg (show '"' ≠ '}' by decide), if_true, hloop]

end Members

/-! ## Values -/

/-- A value whose items and members are spelled as `Inner` says. -/
inductive SpellsValue (Inner : List Char → Value → Prop) : List Char → Value → Prop where
  | scalar {cs value} : SpellsScalar cs value → SpellsValue Inner cs value
  | array {body items} : Enclosed Inner body items →
      SpellsValue Inner ('[' :: (body ++ [']'])) (.array items)
  | object {body members} : Enclosed (SpellsMember Inner) body members →
      SpellsValue Inner ('{' :: (body ++ ['}'])) (.object members)

/-- A text spells a value in which at most `limit` containers are nested. -/
def Spells : (limit : Nat) → List Char → Value → Prop
  | 0 => SpellsScalar
  | limit + 1 => SpellsValue (Spells limit)

theorem SpellsScalar.spells {cs : List Char} {value : Value} (hcs : SpellsScalar cs value)
    (limit : Nat) : Spells limit cs value := by
  cases limit with
  | zero => exact hcs
  | succ limit => exact .scalar hcs

theorem Spells.startsItem {limit : Nat} (cs : List Char) (value : Value)
    (hcs : Spells limit cs value) : StartsItem cs := by
  cases limit with
  | zero => exact SpellsScalar.startsItem hcs
  | succ limit =>
      cases hcs with
      | scalar hscalar => exact hscalar.startsItem
      | array => exact ⟨'[', _, rfl, by decide⟩
      | object => exact ⟨'{', _, rfl, by decide⟩

/-! ## Depth -/

theorem SpellsMember.value {Spelled : List Char → Value → Prop} {cs : List Char}
    {member : String × Value} (hcs : SpellsMember Spelled cs member) :
    ∃ front, Spelled front member.2 := by
  obtain ⟨_, _, _, -, -, ⟨_, _, front, -, -, hfront, -⟩, -⟩ := hcs
  exact ⟨front, hfront⟩

theorem SpellsMember.imp {Spelled Spelled' : List Char → Value → Prop} {cs : List Char}
    {member : String × Value} (hcs : SpellsMember Spelled cs member)
    (himp : ∀ front, Spelled front member.2 → Spelled' front member.2) :
    SpellsMember Spelled' cs member := by
  obtain ⟨raw, name, behind, hraw, hname, ⟨before, after, front, hbefore, hafter, hfront, hbehind⟩,
    hsplit⟩ := hcs
  exact ⟨raw, name, behind, hraw, hname,
    ⟨before, after, front, hbefore, hafter, himp front hfront, hbehind⟩, hsplit⟩

theorem Spells.depth_le {limit : Nat} {cs : List Char} {value : Value}
    (hcs : Spells limit cs value) : value.depth ≤ limit := by
  induction limit generalizing cs value with
  | zero => exact Nat.le_of_eq (SpellsScalar.depth hcs)
  | succ limit ih =>
      cases hcs with
      | scalar hscalar => simp [hscalar.depth]
      | array hbody =>
          refine Value.depth_array_le_iff.mpr fun item hitem => ?_
          obtain ⟨front, hfront⟩ := hbody.exists_spelled item hitem
          exact ih hfront
      | object hbody =>
          refine Value.depth_object_le_iff.mpr fun member hmember => ?_
          obtain ⟨front, hfront⟩ := hbody.exists_spelled member hmember
          obtain ⟨behind, hbehind⟩ := hfront.value
          exact ih hbehind

/-- How a value is spelled does not depend on the limit. -/
theorem Spells.of_depth_le {limit limit' : Nat} {cs : List Char} {value : Value}
    (hcs : Spells limit cs value) (hdepth : value.depth ≤ limit') : Spells limit' cs value := by
  induction limit generalizing limit' cs value with
  | zero => exact SpellsScalar.spells hcs limit'
  | succ limit ih =>
      cases hcs with
      | scalar hscalar => exact hscalar.spells limit'
      | @array body items hbody =>
          cases limit' with
          | zero => cases hdepth
          | succ limit' =>
              have hitems := Value.depth_array_le_iff.mp hdepth
              exact .array (hbody.imp fun item hitem front hfront => ih hfront (hitems item hitem))
      | @object body members hbody =>
          cases limit' with
          | zero => cases hdepth
          | succ limit' =>
              have hmembers := Value.depth_object_le_iff.mp hdepth
              exact .object (hbody.imp fun member hmember front hfront =>
                hfront.imp fun behind hbehind => ih hbehind (hmembers member hmember))

/-! ## Reading values -/

/-- The reader of values agrees with how values are spelled. -/
structure ReadsValue (read : List Char → Result (Value × List Char))
    (Spelled : List Char → Value → Prop) : Prop where
  skips : ∀ cs, read (skipBlanks cs) = read cs
  starts : ∀ front value, Spelled front value → StartsItem front
  sound : ∀ {cs value rest}, read cs = .ok (value, rest) →
    ∃ front, skipBlanks cs = front ++ rest ∧ Spelled front value
  complete : ∀ {front value rest}, Spelled front value → EndsNumber rest →
    read (front ++ rest) = .ok (value, rest)

section Collect

variable {read : List Char → Result (Value × List Char)} {Spelled : List Char → Value → Prop}

theorem ReadsValue.complete_behind (hread : ReadsValue read Spelled) {blanks front : List Char}
    {value : Value} {rest : List Char} (hblanks : Blanks blanks) (hfront : Spelled front value)
    (hrest : EndsNumber rest) : read (blanks ++ (front ++ rest)) = .ok (value, rest) := by
  have hsolid := (hread.starts front value hfront).startsSolid.append rest
  rw [← hread.skips, hblanks.skip_solid hsolid]
  exact hread.complete hfront hrest

theorem ReadsValue.collectItem (hread : ReadsValue read Spelled) :
    ReadsItem (collectItem read) Spelled fun items item => some (item :: items) where
  starts := hread.starts
  sound := by
    intro items cs next rest hcs hitem
    rw [Json.collectItem, bind_ok_iff] at hitem
    obtain ⟨⟨value, behind⟩, hvalue, hdone⟩ := hitem
    cases hdone
    obtain ⟨front, hsplit, hfront⟩ := hread.sound hvalue
    rw [hcs.skipBlanks] at hsplit
    exact ⟨front, value, hsplit, hfront, rfl⟩
  complete := by
    rintro front value items next rest hfront ⟨⟩ hrest
    rw [Json.collectItem, hread.complete hfront hrest]
    rfl

theorem readColon_of_blanks {before : List Char} (hbefore : Blanks before) (rest : List Char) :
    readColon (before ++ ':' :: rest) = .ok ((), rest) := by
  simp only [readColon, hbefore.skip_solid (.cons (by decide : isBlank ':' = false) rest), if_true]

theorem blanks_of_readColon {cs rest : List Char} (hread : readColon cs = .ok ((), rest)) :
    ∃ before, Blanks before ∧ cs = before ++ ':' :: rest := by
  obtain ⟨before, hbefore, hcs⟩ := exists_blanks cs
  unfold readColon at hread
  split at hread
  · simp at hread
  · rename_i c tail hskip
    split_ifs at hread with hcolon
    · cases hread
      rw [hskip, hcolon] at hcs
      exact ⟨before, hbefore, hcs⟩
    · simp at hread

theorem ReadsValue.collectMember (hread : ReadsValue read Spelled) :
    ReadsMember (collectMember read) Spelled fun members member => some (member :: members) where
  sound := by
    intro members name cs next rest hmember
    simp only [Json.collectMember, bind_ok_iff] at hmember
    obtain ⟨⟨_, behind⟩, hcolon, ⟨value, rest'⟩, hvalue, hdone⟩ := hmember
    cases hdone
    obtain ⟨before, hbefore, rfl⟩ := blanks_of_readColon hcolon
    obtain ⟨after, hafter, hbehind⟩ := exists_blanks behind
    obtain ⟨front, hsplit, hfront⟩ := hread.sound hvalue
    refine ⟨before ++ ':' :: (after ++ front), value, ?_,
      ⟨before, after, front, hbefore, hafter, hfront, rfl⟩, rfl⟩
    simp only at hsplit
    rw [hsplit] at hbehind
    simp [hbehind]
  complete := by
    rintro cs name value members next rest ⟨before, after, front, hbefore, hafter, hfront, rfl⟩
      ⟨⟩ hrest
    have hvalue := hread.complete_behind hafter hfront hrest
    rw [List.append_assoc, List.cons_append, List.append_assoc, Json.collectMember,
      readColon_of_blanks hbefore]
    simp only [bind, Except.bind, hvalue, pure, Except.pure]

theorem foldlM_cons_eq {α : Type} (elements found : List α) :
    elements.foldlM (fun found element => some (element :: found)) found =
      some (elements.reverse ++ found) := by
  induction elements generalizing found with
  | nil => rfl
  | cons element elements ih => simp [ih]

end Collect

/-- What a scalar's first character leads to does not depend on the limit. -/
theorem spellsScalar_of_readValue {limit : Nat} {cs rest : List Char} {c : Char}
    {value : Value} {rest' : List Char} (hskip : skipBlanks cs = c :: rest)
    (hopen : c ≠ '[' ∧ c ≠ '{') (hread : readValue limit cs = .ok (value, rest')) :
    ∃ front, c :: rest = front ++ rest' ∧ SpellsScalar front value := by
  rw [readValue.eq_def] at hread
  simp only [hskip, if_neg hopen.1, if_neg hopen.2] at hread
  split_ifs at hread with hnull htrue hfalse hquote hnumber
  · subst hnull
    obtain ⟨⟨_, behind⟩, hword, hdone⟩ := map_ok_iff.mp hread
    cases hdone
    rw [eq_append_of_readWord hword]
    exact ⟨_, rfl, .null⟩
  · subst htrue
    obtain ⟨⟨_, behind⟩, hword, hdone⟩ := map_ok_iff.mp hread
    cases hdone
    rw [eq_append_of_readWord hword]
    exact ⟨_, rfl, .true⟩
  · subst hfalse
    obtain ⟨⟨_, behind⟩, hword, hdone⟩ := map_ok_iff.mp hread
    cases hdone
    rw [eq_append_of_readWord hword]
    exact ⟨_, rfl, .false⟩
  · subst hquote
    obtain ⟨⟨text, behind⟩, hstring, hdone⟩ := map_ok_iff.mp hread
    cases hdone
    obtain ⟨raw, rfl, hraw⟩ := spellsText_of_readString hstring
    exact ⟨'"' :: (raw ++ ['"']), by simp, .string hraw⟩
  · rw [readNumber, bind_ok_iff] at hread
    obtain ⟨⟨numeral, behind⟩, hnumeral, hvalue⟩ := hread
    obtain ⟨front, hsplit, hfront⟩ := spells_of_readNumeral hnumeral
    simp only at hvalue
    split at hvalue
    · rename_i found hfound
      cases hvalue
      exact ⟨front, hsplit, .number hfront hfound⟩
    · cases hvalue
  · simp at hread

theorem not_open_of_readValue_zero {cs rest : List Char} {c : Char} {result : Value × List Char}
    (hskip : skipBlanks cs = c :: rest) (hread : readValue 0 cs = .ok result) :
    c ≠ '[' ∧ c ≠ '{' := by
  rw [readValue.eq_def] at hread
  constructor
  · rintro rfl
    simp [hskip, show isDigit '[' = false by decide] at hread
  · rintro rfl
    simp [hskip, show isDigit '{' = false by decide] at hread

theorem skipBlanks_ne_nil_of_readValue {limit : Nat} {cs : List Char}
    {result : Value × List Char} (hread : readValue limit cs = .ok result) :
    ∃ c rest, skipBlanks cs = c :: rest := by
  cases hskip : skipBlanks cs with
  | nil =>
      rw [readValue.eq_def] at hread
      simp [hskip] at hread
  | cons c rest => exact ⟨c, rest, rfl⟩

section Containers

variable {limit : Nat} (inner : ReadsValue (readValue limit) (Spells limit))
include inner

theorem spellsValue_of_readValue {cs rest rest' : List Char} {c : Char} {value : Value}
    (hskip : skipBlanks cs = c :: rest) (hread : readValue (limit + 1) cs = .ok (value, rest')) :
    ∃ front, c :: rest = front ++ rest' ∧ SpellsValue (Spells limit) front value := by
  by_cases harray : c = '['
  · subst harray
    rw [← readValue_skipBlanks _ (skipBlanks_skipBlanks cs), hskip, readValue_array,
      map_ok_iff] at hread
    obtain ⟨⟨found, behind⟩, hitems, hdone⟩ := hread
    cases hdone
    obtain ⟨body, items, rfl, hbody, hrun⟩ := inner.collectItem.readItems_sound hitems
    rw [foldlM_cons_eq, List.append_nil, Option.some.injEq] at hrun
    rw [← hrun, List.reverse_reverse]
    exact ⟨'[' :: (body ++ [']']), by simp, .array hbody⟩
  · by_cases hobject : c = '{'
    · subst hobject
      rw [← readValue_skipBlanks _ (skipBlanks_skipBlanks cs), hskip, readValue_object,
        map_ok_iff] at hread
      obtain ⟨⟨found, behind⟩, hmembers, hdone⟩ := hread
      cases hdone
      obtain ⟨body, members, rfl, hbody, hrun⟩ := inner.collectMember.readMembers_sound hmembers
      rw [foldlM_cons_eq, List.append_nil, Option.some.injEq] at hrun
      rw [← hrun, List.reverse_reverse]
      exact ⟨'{' :: (body ++ ['}']), by simp, .object hbody⟩
    · obtain ⟨front, hsplit, hfront⟩ :=
        spellsScalar_of_readValue hskip ⟨harray, hobject⟩ hread
      exact ⟨front, hsplit, .scalar hfront⟩

theorem readValue_of_spellsValue {front rest : List Char} {value : Value}
    (hfront : SpellsValue (Spells limit) front value) (hrest : EndsNumber rest) :
    readValue (limit + 1) (front ++ rest) = .ok (value, rest) := by
  cases hfront with
  | scalar hscalar => exact readValue_of_spellsScalar hscalar _ hrest
  | @array body items hbody =>
      have hitems := inner.collectItem.readItems_complete hbody (foldlM_cons_eq items []) rest
      rw [List.cons_append, List.append_assoc, List.singleton_append, readValue_array, hitems]
      simp [Except.map]
  | @object body members hbody =>
      have hmembers :=
        inner.collectMember.readMembers_complete hbody (foldlM_cons_eq members []) rest
      rw [List.cons_append, List.append_assoc, List.singleton_append, readValue_object, hmembers]
      simp [Except.map]

end Containers

/-- The reader agrees with the grammar, whatever the limit. -/
theorem readsValue (limit : Nat) : ReadsValue (readValue limit) (Spells limit) := by
  induction limit with
  | zero =>
      refine ⟨fun cs => readValue_skipBlanks 0 (skipBlanks_skipBlanks cs), Spells.startsItem, ?_,
        ?_⟩
      · intro cs value rest hread
        obtain ⟨c, tail, hskip⟩ := skipBlanks_ne_nil_of_readValue hread
        rw [hskip]
        exact spellsScalar_of_readValue hskip (not_open_of_readValue_zero hskip hread) hread
      · intro front value rest hfront hrest
        exact readValue_of_spellsScalar hfront 0 hrest
  | succ limit inner =>
      refine ⟨fun cs => readValue_skipBlanks _ (skipBlanks_skipBlanks cs), Spells.startsItem, ?_,
        ?_⟩
      · intro cs value rest hread
        obtain ⟨c, tail, hskip⟩ := skipBlanks_ne_nil_of_readValue hread
        rw [hskip]
        exact spellsValue_of_readValue inner hskip hread
      · intro front value rest hfront hrest
        exact readValue_of_spellsValue inner hfront hrest

/-! ## Documents -/

/-- A text spells a value, with blanks around it. -/
def SpellsDocument (text : String) (value : Value) : Prop :=
  ∃ limit before front after, Blanks before ∧ Blanks after ∧ Spells limit front value ∧
    text.toList = before ++ (front ++ after)

theorem SpellsDocument.readValue {text : String} {value : Value} {limit : Nat}
    (htext : SpellsDocument text value) (hdepth : value.depth ≤ limit) :
    ∃ after, Blanks after ∧ readValue limit text.toList = .ok (value, after) := by
  obtain ⟨_, before, front, after, hbefore, hafter, hfront, hsplit⟩ := htext
  have hwithin : Spells limit front value := hfront.of_depth_le hdepth
  rw [hsplit]
  exact ⟨after, hafter, (readsValue limit).complete_behind hbefore hwithin hafter.endsNumber⟩

/-- A text spells one value only. -/
theorem SpellsDocument.unique {text : String} {value value' : Value}
    (htext : SpellsDocument text value) (htext' : SpellsDocument text value') :
    value = value' := by
  -- both are read by one run of the reader that allows for the deeper of them
  obtain ⟨after, -, hread⟩ := htext.readValue (Nat.le_max_left value.depth value'.depth)
  obtain ⟨after', -, hread'⟩ := htext'.readValue (Nat.le_max_right value.depth value'.depth)
  rw [hread] at hread'
  cases hread'
  rfl

theorem spellsDocument_of_readValue {limit : Nat} {text : String} {value : Value}
    {after : List Char} (hread : readValue limit text.toList = .ok (value, after))
    (hafter : Blanks after) : SpellsDocument text value := by
  obtain ⟨before, hbefore, htext⟩ := exists_blanks text.toList
  obtain ⟨front, hsplit, hfront⟩ := (readsValue limit).sound hread
  rw [hsplit] at htext
  exact ⟨limit, before, front, after, hbefore, hafter, hfront, htext⟩

end Json
end SyntaxDump

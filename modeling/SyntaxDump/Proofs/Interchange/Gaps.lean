import Mathlib.Tactic
import SyntaxDump.Proofs.Interchange.Slots

/-!
# Records with a gap

A record may be read from members and from items.  Items are read like the members
that they are if they get the names of the fields in order, so that both forms are
settled at once: if one value of a record is left open, and the record is read with
some value there, then with any other one it is read or not as the field is, and
nothing else in it changes.
-/

namespace SyntaxDump
namespace Interchange

open Json (Value)

/-! ## Items as members -/

/-- A record with these fields, in this order. -/
structure Record.Aligned {σ α : Type} (record : Record σ α) (slots : List (Slot α)) : Prop
    extends record.HasSlots slots where
  /-- no field stands twice -/
  once : ∀ slot ∈ slots, ∀ first second rest result,
    slot.put (first :: second :: rest) result = none
  take : ∀ (expected subject : String) (index : Nat) (values : List Value),
    (record.take expected index values).toOption =
      (record.read subject (.members ((slots.map Slot.name).zip values))).toOption.map
        fun result => (result, values.drop slots.length)

theorem aligned_field {α : Type} (name : String) (decode : Value → Decoded α)
    (absent : Option α) :
    (Record.field name decode absent).Aligned [.single name decode absent] where
  toHasSlots := hasSlots_field name decode absent
  once := by
    intro slot hslot first second rest result
    obtain rfl := List.mem_singleton.mp hslot
    rfl
  take := by
    intro expected subject index values
    rw [toOption_read_field]
    cases values with
    | nil => cases absent <;> rfl
    | cons value values =>
        simp only [Slot.single, List.map_cons, List.map_nil, List.zip_cons_cons, List.zip_nil_left,
          occurrences_cons_self, occurrences_nil, fieldValue, Record.field, toOption_map]
        rfl

theorem zip_append_left {α β : Type} (front back : List α) (values : List β) :
    (front ++ back).zip values = front.zip values ++ back.zip (values.drop front.length) := by
  induction front generalizing values with
  | nil => rfl
  | cons a front ih =>
      cases values with
      | nil => simp
      | cons b values => simp [ih]

theorem occurrences_zip {name : String} {names : List String} (hname : name ∉ names)
    (values : List Value) : occurrences name (names.zip values) = [] := by
  rw [occurrences, List.filterMap_eq_nil_iff]
  rintro ⟨other, value⟩ hmem
  rw [if_neg]
  rintro rfl
  exact hname (List.of_mem_zip hmem).1

theorem toOption_take_and {σ τ α β : Type} {first : Record σ α} {second : Record τ β}
    (expected : String) (index : Nat) (values : List Value) :
    ((first.and second).take expected index values).toOption =
      (first.take expected index values).toOption.bind fun left =>
        (second.take expected (index + first.size) left.2).toOption.map fun right =>
          ((left.1, right.1), right.2) := by
  simp only [Record.and]
  cases first.take expected index values with
  | error error => rfl
  | ok left => cases hright : second.take expected (index + first.size) left.2 <;>
      simp [bind, Except.bind, hright, pure, Except.pure, Except.toOption]

namespace Record.Aligned

section Join

variable {σ τ α β : Type} {first : Record σ α} {second : Record τ β} {slots : List (Slot α)}
  {slots' : List (Slot β)}

theorem and (hfirst : first.Aligned slots) (hsecond : second.Aligned slots')
    (hdisjoint : ∀ name ∈ slots.map Slot.name, name ∉ slots'.map Slot.name) :
    (first.and second).Aligned (slots.map Slot.first ++ slots'.map Slot.second) where
  toHasSlots := hfirst.toHasSlots.and hsecond.toHasSlots hdisjoint
  once := by
    intro slot hslot value value' rest result
    rcases List.mem_append.mp hslot with hleft | hright
    · obtain ⟨slot, hmem, rfl⟩ := List.mem_map.mp hleft
      simp [Slot.first, hfirst.once slot hmem]
    · obtain ⟨slot, hmem, rfl⟩ := List.mem_map.mp hright
      simp [Slot.second, hsecond.once slot hmem]
  take := by
    intro expected subject index values
    have hapart : ∀ key, first.Ignores key ∨ second.Ignores key := by
      intro key
      by_cases hkey : key ∈ slots.map Slot.name
      · exact .inr (hsecond.ignores key (hdisjoint key hkey))
      · exact .inl (hfirst.ignores key hkey)
    have hnames : (slots.map Slot.first ++ slots'.map Slot.second).map Slot.name =
        slots.map Slot.name ++ slots'.map Slot.name := by
      simp [Slot.first, Slot.second, Function.comp_def]
    rw [hnames, zip_append_left, toOption_read_and hapart, List.length_map]
    -- each of the two records sees its own names only
    have hleft : (first.read subject (.members ((slots.map Slot.name).zip values ++
          (slots'.map Slot.name).zip (values.drop slots.length)))).toOption =
        (first.read subject (.members ((slots.map Slot.name).zip values))).toOption := by
      refine hfirst.congr fun slot hslot => ?_
      rw [occurrences_append,
        occurrences_zip (hdisjoint slot.name (List.mem_map_of_mem hslot)), List.append_nil]
    have hright : (second.read subject (.members ((slots.map Slot.name).zip values ++
          (slots'.map Slot.name).zip (values.drop slots.length)))).toOption =
        (second.read subject (.members
          ((slots'.map Slot.name).zip (values.drop slots.length)))).toOption := by
      refine hsecond.congr fun slot hslot => ?_
      rw [occurrences_append, occurrences_zip, List.nil_append]
      exact fun hname => hdisjoint slot.name hname (List.mem_map_of_mem hslot)
    rw [hleft, hright, toOption_take_and, hfirst.take expected subject]
    simp only [Option.bind_map, Function.comp_def, hsecond.take expected subject,
      Option.map_bind, Option.map_map]
    simp [List.drop_drop]

/-- A field in front of other ones. -/
theorem cons {name : String} {decode : Value → Decoded α} {absent : Option α}
    (hrest : second.Aligned slots') (hname : name ∉ slots'.map Slot.name) :
    ((Record.field name decode absent).and second).Aligned
      ([Slot.single name decode absent].map Slot.first ++ slots'.map Slot.second) := by
  apply (aligned_field name decode absent).and hrest
  intro other hother
  obtain rfl := List.mem_singleton.mp hother
  exact hname

end Join

variable {σ α : Type} {record : Record σ α} {slots : List (Slot α)}

theorem toOption_read_items (hrecord : record.Aligned slots) (subject : String)
    (values : List Value) :
    (record.read subject (.items values)).toOption =
      if values.length ≤ slots.length then
        (record.read subject (.members ((slots.map Slot.name).zip values))).toOption
      else none := by
  have htake := hrecord.take (subject ++ " with " ++ elements record.size) subject 0 values
  conv_lhs => rw [Record.read]
  cases hfound : record.take (subject ++ " with " ++ elements record.size) 0 values with
  | error error =>
      rw [hfound] at htake
      have hnone := Option.map_eq_none_iff.mp htake.symm
      rw [hnone]
      simp [bind, Except.bind, Except.toOption]
  | ok found =>
      rw [hfound] at htake
      obtain ⟨result, hresult, rfl⟩ := Option.map_eq_some_iff.mp htake.symm
      rw [hresult]
      simp only [bind, Except.bind, List.isEmpty_iff_length_eq_zero, List.length_drop,
        Nat.sub_eq_zero_iff_le]
      split_ifs <;> rfl

end Record.Aligned

/-! ## Contents with a gap -/

/-- A content of a record in which the value of one field is left open. -/
inductive Gap (names : List String) (name : String) : (Value → Content) → Prop where
  | members (front back : List (String × Value)) :
      Gap names name fun value => .members (front ++ (name, value) :: back)
  | items (front back : List Value) : names[front.length]? = some name →
      Gap names name fun value => .items (front ++ value :: back)

namespace Record.Aligned

variable {σ α : Type} {record : Record σ α} {slots : List (Slot α)}

theorem read_members_gap (hrecord : record.Aligned slots) {slot : Slot α} (hslot : slot ∈ slots)
    {subject : String} {front back : List (String × Value)} {value : Value} {result : α}
    (hread : (record.read subject (.members (front ++ (slot.name, value) :: back))).toOption =
      some result) (value' : Value) :
    (record.read subject (.members (front ++ (slot.name, value') :: back))).toOption =
      slot.put [value'] result := by
  have hvalues (value : Value) : occurrences slot.name (front ++ (slot.name, value) :: back) =
      occurrences slot.name front ++ value :: occurrences slot.name back := by
    rw [occurrences_append, occurrences_cons_self]
  have hsame (value' : Value) : SameBeside slot.name (front ++ (slot.name, value) :: back)
      (front ++ (slot.name, value') :: back) := by
    intro other hother
    simp only [occurrences_append, occurrences_cons_of_ne (Ne.symm hother)]
  have hput := hrecord.put slot hslot (hsame value) hread
  rw [hread, hvalues] at hput
  rw [hrecord.put slot hslot (hsame value') hread, hvalues]
  -- the field stands once, or nothing would have been read
  cases hfront : occurrences slot.name front with
  | nil =>
      cases hback : occurrences slot.name back with
      | nil => rfl
      | cons other others =>
          rw [hfront, hback, List.nil_append, hrecord.once slot hslot] at hput
          cases hput
  | cons other others =>
      rw [hfront] at hput
      cases others <;> simp [hrecord.once slot hslot] at hput

/-- With any other value in the gap, a record is read as the field says. -/
theorem read_gap (hrecord : record.Aligned slots) {slot : Slot α} (hslot : slot ∈ slots)
    {gap : Value → Content} (hgap : Gap (slots.map Slot.name) slot.name gap) {subject : String}
    {value : Value} {result : α} (hread : record.read subject (gap value) = .ok result)
    (value' : Value) :
    (record.read subject (gap value')).toOption = slot.put [value'] result := by
  rw [← toOption_eq_some] at hread
  cases hgap with
  | members => exact hrecord.read_members_gap hslot hread value'
  | items front back hname =>
      obtain ⟨hindex, hname⟩ := List.getElem?_eq_some_iff.mp hname
      have hsplit : slots.map Slot.name = (slots.map Slot.name).take front.length ++
          slot.name :: (slots.map Slot.name).drop (front.length + 1) := by
        rw [← hname, List.getElem_cons_drop, List.take_append_drop]
      have hzip (value : Value) : (slots.map Slot.name).zip (front ++ value :: back) =
          ((slots.map Slot.name).take front.length).zip front ++
            (slot.name, value) :: ((slots.map Slot.name).drop (front.length + 1)).zip back := by
        conv_lhs => rw [hsplit]
        rw [List.zip_append (by rw [List.length_take]; omega), List.zip_cons_cons]
      have hlength (value : Value) :
          (front ++ value :: back).length = front.length + back.length + 1 := by
        rw [List.length_append, List.length_cons, Nat.add_assoc]
      rw [hrecord.toOption_read_items, hzip, hlength] at hread ⊢
      split_ifs at hread ⊢
      exact hrecord.read_members_gap hslot hread value'

end Record.Aligned

end Interchange
end SyntaxDump

import Mathlib.Tactic
import SyntaxDump.Proofs.Interchange.Members

/-!
# One field at a time

When the values under one name change and those under all others do not, a
record changes in one place: the field of that name gets what its decoder makes
of the new value, or its default if there is none any more.  This is shown for
single fields and for records that are joined, and read off for each kind of
tree.
-/

namespace SyntaxDump

theorem toOption_eq_some {ε α : Type} {result : Except ε α} {a : α} :
    result.toOption = some a ↔ result = .ok a := by
  cases result <;> simp [Except.toOption]

theorem toOption_map {ε α β : Type} (result : Except ε α) (f : α → β) :
    (result.map f).toOption = result.toOption.map f := by
  cases result <;> rfl

namespace Interchange

open Json (Value)

/-- Only the values under one name may differ. -/
def SameBeside (name : String) (members members' : List (String × Value)) : Prop :=
  ∀ other, other ≠ name → occurrences other members' = occurrences other members

/-- What a field makes of the values under its name. -/
def fieldValue {α : Type} (decode : Value → Decoded α) (absent : Option α) : List Value → Option α
  | [] => absent
  | [value] => (decode value).toOption
  | _ => none

theorem toOption_read_field {α : Type} {name subject : String} {decode : Value → Decoded α}
    {absent : Option α} (members : List (String × Value)) :
    ((Record.field name decode absent).read subject (.members members)).toOption =
      fieldValue decode absent (occurrences name members) := by
  ext a
  rw [toOption_eq_some, Record.read_field_eq_ok]
  cases occurrences name members with
  | nil => simp [fieldValue]
  | cons value values =>
      cases values with
      | nil => simp [fieldValue, toOption_eq_some]
      | cons second values => simp [fieldValue]

theorem toOption_read_and {σ τ α β : Type} {first : Record σ α} {second : Record τ β}
    (hapart : ∀ key, first.Ignores key ∨ second.Ignores key) {subject : String}
    (members : List (String × Value)) :
    ((first.and second).read subject (.members members)).toOption =
      (first.read subject (.members members)).toOption.bind fun a =>
        (second.read subject (.members members)).toOption.map fun b => (a, b) := by
  ext result
  simp only [toOption_eq_some, Record.read_and_eq_ok hapart, Option.bind_eq_some_iff,
    Option.map_eq_some_iff]
  constructor
  · rintro ⟨hfirst, hsecond⟩
    exact ⟨result.1, hfirst, result.2, hsecond, rfl⟩
  · rintro ⟨a, hfirst, b, hsecond, rfl⟩
    exact ⟨hfirst, hsecond⟩

/-- A field of a record: what becomes of the result when the values under the
name become these. -/
structure Slot (α : Type) where
  name : String
  put : List Value → α → Option α

namespace Slot

variable {α β : Type}

def single (name : String) (decode : Value → Decoded α) (absent : Option α) : Slot α :=
  ⟨name, fun values _ => fieldValue decode absent values⟩

def first (slot : Slot α) : Slot (α × β) :=
  ⟨slot.name, fun values result => (slot.put values result.1).map fun a => (a, result.2)⟩

def second (slot : Slot β) : Slot (α × β) :=
  ⟨slot.name, fun values result => (slot.put values result.2).map fun b => (result.1, b)⟩

end Slot

/-- A record has these fields and no others. -/
structure Record.HasSlots {σ α : Type} (record : Record σ α) (slots : List (Slot α)) : Prop where
  ignores : ∀ key, key ∉ slots.map Slot.name → record.Ignores key
  congr : ∀ {subject members members'},
    (∀ slot ∈ slots, occurrences slot.name members' = occurrences slot.name members) →
    (record.read subject (.members members')).toOption =
      (record.read subject (.members members)).toOption
  put : ∀ slot ∈ slots, ∀ {subject members members' result},
    SameBeside slot.name members members' →
    (record.read subject (.members members)).toOption = some result →
    (record.read subject (.members members')).toOption =
      slot.put (occurrences slot.name members') result

theorem hasSlots_field {α : Type} (name : String) (decode : Value → Decoded α)
    (absent : Option α) :
    (Record.field name decode absent).HasSlots [.single name decode absent] where
  ignores key hkey := Record.ignores_field (by simpa [Slot.single] using hkey)
  congr := by
    intro subject members members' hsame
    have hvalues : occurrences name members' = occurrences name members :=
      hsame (.single name decode absent) (by simp)
    rw [toOption_read_field, toOption_read_field, hvalues]
  put := by
    intro slot hslot subject members members' result _ _
    obtain rfl := List.mem_singleton.mp hslot
    exact toOption_read_field members'

namespace Record.HasSlots

variable {σ τ α β : Type} {first : Record σ α} {second : Record τ β} {slots : List (Slot α)}
  {slots' : List (Slot β)}

theorem and (hfirst : first.HasSlots slots) (hsecond : second.HasSlots slots')
    (hdisjoint : ∀ name ∈ slots.map Slot.name, name ∉ slots'.map Slot.name) :
    (first.and second).HasSlots (slots.map Slot.first ++ slots'.map Slot.second) := by
  have hapart : ∀ key, first.Ignores key ∨ second.Ignores key := by
    intro key
    by_cases hkey : key ∈ slots.map Slot.name
    · exact .inr (hsecond.ignores key (hdisjoint key hkey))
    · exact .inl (hfirst.ignores key hkey)
  constructor
  case ignores =>
    intro key hkey
    have hnames : key ∉ slots.map Slot.name ∧ key ∉ slots'.map Slot.name := by
      simpa [Slot.first, Slot.second, Function.comp_def] using hkey
    exact ignores_and (hfirst.ignores key hnames.1) (hsecond.ignores key hnames.2)
  case congr =>
    intro subject members members' hsame
    obtain ⟨hleft, hright⟩ := List.forall_mem_append.mp hsame
    rw [toOption_read_and hapart, toOption_read_and hapart,
      hfirst.congr fun slot hslot => hleft slot.first (List.mem_map_of_mem hslot),
      hsecond.congr fun slot hslot => hright slot.second (List.mem_map_of_mem hslot)]
  case put =>
    intro slot hslot subject members members' result hsame hread
    rw [toOption_read_and hapart, Option.bind_eq_some_iff] at hread
    obtain ⟨a, ha, hrest⟩ := hread
    obtain ⟨b, hb, rfl⟩ := Option.map_eq_some_iff.mp hrest
    rw [toOption_read_and hapart]
    rcases List.mem_append.mp hslot with hleft | hright
    · obtain ⟨slot, hmem, rfl⟩ := List.mem_map.mp hleft
      have hothers : ∀ other ∈ slots', occurrences other.name members' =
          occurrences other.name members := by
        intro other hother
        apply hsame
        intro hname
        exact hdisjoint slot.name (List.mem_map_of_mem hmem)
          (List.mem_map.mpr ⟨other, hother, hname⟩)
      rw [hsecond.congr hothers, hb, hfirst.put slot hmem hsame ha]
      simp [Slot.first, Option.map_eq_bind]
    · obtain ⟨slot, hmem, rfl⟩ := List.mem_map.mp hright
      have hothers : ∀ other ∈ slots, occurrences other.name members' =
          occurrences other.name members := by
        intro other hother
        apply hsame
        intro hname
        exact hdisjoint other.name (List.mem_map_of_mem hother)
          (List.mem_map.mpr ⟨slot, hmem, hname.symm⟩)
      rw [hfirst.congr hothers, ha, hsecond.put slot hmem hsame hb]
      simp [Slot.second]

/-- A field in front of other ones. -/
theorem cons {name : String} {decode : Value → Decoded α} {absent : Option α}
    (hrest : second.HasSlots slots') (hname : name ∉ slots'.map Slot.name) :
    ((Record.field name decode absent).and second).HasSlots
      ([Slot.single name decode absent].map Slot.first ++ slots'.map Slot.second) := by
  apply (hasSlots_field name decode absent).and hrest
  intro other hother
  obtain rfl := List.mem_singleton.mp hother
  exact hname

end Record.HasSlots

/-! ## Members of trees -/

section

variable {α β ω : Type} (depth : Nat)

/-- The field has for the whole what the table says of the member. -/
structure Member.At (member : Member ω) (slot : Slot α) (make : α → ω) (result : α) : Prop where
  name : slot.name = member.name
  without : (slot.put [] result).map make = member.without
  part : ∀ part ∈ member.part, ∀ value, value ≠ .null →
    (slot.put [value] result).map make =
      (part.role.decode depth value).toOption.map part.replace

/-- Every member of the table has its field. -/
def Describes (slots : List (Slot α)) (make : α → ω) (result : α) (table : List (Member ω)) :
    Prop :=
  ∀ member ∈ table, ∃ slot ∈ slots, member.At depth slot make result

variable {depth} {make : α × β → ω} {a : α} {b : β} {member : Member ω} {slot : Slot α}
  {slots : List (Slot α)} {slots' : List (Slot β)} {table table' : List (Member ω)}

theorem Member.At.first (hat : member.At depth slot (fun a => make (a, b)) a) :
    member.At depth (slot.first : Slot (α × β)) make (a, b) where
  name := hat.name
  without := by rw [← hat.without, Slot.first, Option.map_map]; rfl
  part part hpart value hnull := by
    rw [← hat.part part hpart value hnull, Slot.first, Option.map_map]
    rfl

theorem Member.At.second {slot : Slot β} (hat : member.At depth slot (fun b => make (a, b)) b) :
    member.At depth (slot.second : Slot (α × β)) make (a, b) where
  name := hat.name
  without := by rw [← hat.without, Slot.second, Option.map_map]; rfl
  part part hpart value hnull := by
    rw [← hat.part part hpart value hnull, Slot.second, Option.map_map]
    rfl

theorem Member.At.describes {make : α → ω} (hat : member.At depth slot make a) :
    Describes depth [slot] make a [member] := by
  intro other hother
  obtain rfl := List.mem_singleton.mp hother
  exact ⟨slot, List.mem_singleton_self slot, hat⟩

theorem Describes.append (hfirst : Describes depth slots (fun a => make (a, b)) a table)
    (hsecond : Describes depth slots' (fun b => make (a, b)) b table') :
    Describes depth (slots.map Slot.first ++ slots'.map Slot.second) make (a, b)
      (table ++ table') := by
  intro member hmember
  rcases List.mem_append.mp hmember with hleft | hright
  · obtain ⟨slot, hslot, hat⟩ := hfirst member hleft
    exact ⟨slot.first, List.mem_append_left _ (List.mem_map_of_mem hslot), hat.first⟩
  · obtain ⟨slot, hslot, hat⟩ := hsecond member hright
    exact ⟨slot.second, List.mem_append_right _ (List.mem_map_of_mem hslot), hat.second⟩

theorem Describes.cons (hat : member.At depth slot (fun a => make (a, b)) a)
    (hrest : Describes depth slots' (fun b => make (a, b)) b table') :
    Describes depth ([slot].map Slot.first ++ slots'.map Slot.second) make (a, b)
      (member :: table') :=
  hat.describes.append hrest

/-! ## Fields of trees -/

section

variable {name : String} {role : Role} {tree : role.Tree} {replace : role.Tree → ω}

theorem at_scalar {value : Value} {decode : Value → Decoded α} {make : α → ω} :
    (Member.scalar name value).At depth (.single name decode none) make a where
  name := rfl
  without := rfl
  part := nofun

theorem at_required :
    (Member.required name role tree replace).At depth (.single name (role.decode depth) none)
      replace tree where
  name := rfl
  without := rfl
  part := by
    rintro _ ⟨⟩ value -
    rfl

theorem at_defaulted {trees : List role.Tree} {replace : List role.Tree → ω} :
    (Member.defaulted name role trees replace).At depth
      (.single name (listOf (role.decode depth)) (some [])) replace trees where
  name := rfl
  without := rfl
  part := by
    rintro _ ⟨⟩ value -
    rfl

theorem describes_optional {tree : Option role.Tree} {replace : Option role.Tree → ω} :
    Describes depth [.single name (optionOf (role.decode depth)) (some none)] replace tree
      (optionalMember name role tree replace) := by
  intro member hmember
  obtain ⟨known, -, rfl⟩ := List.mem_map.mp hmember
  refine ⟨_, List.mem_singleton_self _, rfl, rfl, ?_⟩
  rintro _ ⟨⟩ value hnull
  change (optionOf (role.decode depth) value).toOption.map replace = _
  rw [optionOf_of_ne_null _ hnull, toOption_map, Option.map_map]
  rfl

end

/-- What becomes of the whole if the values under the name of the member change
and no others do. -/
structure Member.Governs (depth : Nat) (member : Member ω)
    (read : List (String × Value) → Option ω) (members : List (String × Value)) : Prop where
  without : ∀ {members'}, SameBeside member.name members members' →
    occurrences member.name members' = [] → read members' = member.without
  replace : ∀ part ∈ member.part, ∀ {members' value}, SameBeside member.name members members' →
    value ≠ .null → occurrences member.name members' = [value] →
    read members' = (part.role.decode depth value).toOption.map part.replace

theorem Record.HasSlots.governs {σ : Type} {record : Record σ α} {slots : List (Slot α)}
    (hslots : record.HasSlots slots) {make : α → ω} {whole : ω} {subject : String}
    {members : List (String × Value)} {table : List (Member ω)}
    (hread : (record.read subject (.members members)).map make = .ok whole)
    (htable : ∀ result, make result = whole → Describes depth slots make result table) :
    ∀ member ∈ table, member.Governs depth
      (fun members => ((record.read subject (.members members)).map make).toOption) members := by
  obtain ⟨result, hresult, hmake⟩ := map_ok_iff.mp hread
  intro member hmember
  obtain ⟨slot, hslot, hat⟩ := htable result hmake member hmember
  have hput {members' : List (String × Value)} (hsame : SameBeside member.name members members') :
      ((record.read subject (.members members')).map make).toOption =
        (slot.put (occurrences member.name members') result).map make := by
    rw [← hat.name] at hsame ⊢
    rw [toOption_map, hslots.put slot hslot hsame (toOption_eq_some.mpr hresult)]
  constructor
  · intro members' hsame hnone
    rw [hput hsame, hnone, hat.without]
  · intro part hpart members' value hsame hnull hone
    rw [hput hsame, hone, hat.part part hpart value hnull]

end

section

variable {depth : Nat} {members : List (String × Value)}

attribute [local simp] Slot.single Slot.first Slot.second Function.comp_def

theorem governs_typeMembers {type : TypeDescriptor}
    (hread : typeOfContent (typeOf depth) (kindOfType type) (.members members) = .ok type) :
    ∀ member ∈ typeMembers type, member.Governs depth (fun members =>
      (typeOfContent (typeOf depth) (kindOfType type) (.members members)).toOption) members := by
  cases type with
  | pointer referenced =>
      refine (hasSlots_field _ _ _).governs hread ?_
      rintro _ ⟨⟩
      exact at_required.describes
  | functional inputs output =>
      refine ((hasSlots_field _ _ _).cons (by simp)).governs hread ?_
      rintro ⟨_, _⟩ ⟨⟩
      exact .cons at_defaulted at_required.describes
  | _ => exact nofun

theorem governs_sequenceMembersTo {ω : Type} {nodes : List Node} {make : List Node → ω}
    {subject : String} {whole : ω} (hmake : ∀ other, make other = whole → other = nodes)
    (hread : ((sequenceRecord (nodeOf depth)).read subject (.members members)).map make =
      .ok whole) :
    ∀ member ∈ sequenceMembersTo nodes make, member.Governs depth (fun members =>
      (((sequenceRecord (nodeOf depth)).read subject (.members members)).map make).toOption)
      members := by
  refine (hasSlots_field _ _ _).governs hread ?_
  intro other hother
  obtain rfl := hmake other hother
  exact at_defaulted.describes

theorem governs_blockMembersTo {ω : Type} {body : Block Node} {make : Block Node → ω} {whole : ω}
    (hmake : ∀ other, make other = whole → other = body)
    (hread : (blockOfContent (nodeOf depth) (.members members)).map make = .ok whole) :
    ∀ member ∈ blockMembersTo body make, member.Governs depth (fun members =>
      ((blockOfContent (nodeOf depth) (.members members)).map make).toOption) members := by
  have hblock (members : List (String × Value)) :
      (blockOfContent (nodeOf depth) (.members members)).map make =
        ((blockRecord (nodeOf depth)).read "struct Block" (.members members)).map
          fun parts => make ⟨parts.1, parts.2⟩ := by
    rw [blockOfContent]
    cases (blockRecord (nodeOf depth)).read "struct Block" (.members members) <;> rfl
  simp only [hblock] at hread ⊢
  refine ((hasSlots_field _ _ _).cons (by simp)).governs hread ?_
  rintro ⟨declarations, instructions⟩ hother
  obtain rfl := hmake _ hother
  exact .append describes_optional describes_optional

theorem governs_nodeMembers {node : Node}
    (hread : nodeOfContent (nodeOf depth) (typeOf depth) node.kind (.members members) =
      .ok node) :
    ∀ member ∈ nodeMembers node, member.Governs depth (fun members =>
      (nodeOfContent (nodeOf depth) (typeOf depth) node.kind (.members members)).toOption)
      members := by
  cases node with
  | nil => exact nofun
  | null => exact nofun
  | input => exact nofun
  | integer value | double value | string value | var value | stop level | next level =>
      refine (hasSlots_field _ _ _).governs hread ?_
      rintro _ ⟨⟩
      exact at_scalar.describes
  | data bytes =>
      refine (hasSlots_field _ _ _).governs hread ?_
      rintro _ ⟨⟩
      exact Member.At.describes ⟨rfl, rfl, nofun⟩
  | sequence nodes => exact governs_sequenceMembersTo (by simp) hread
  | block body => exact governs_blockMembersTo (by simp) hread
  | unary op argument =>
      refine ((hasSlots_field _ _ _).cons (by simp)).governs hread ?_
      rintro ⟨_, _⟩ ⟨⟩
      exact .cons at_scalar at_required.describes
  | binary op left right =>
      refine (((hasSlots_field _ _ _).cons (by simp)).cons (by simp)).governs hread ?_
      rintro ⟨_, _, _⟩ ⟨⟩
      exact .cons at_scalar (.cons at_required at_required.describes)
  | ifElse condition thenBlock elseBlock =>
      refine (((hasSlots_field _ _ _).cons (by simp)).cons (by simp)).governs hread ?_
      rintro ⟨_, _, _⟩ ⟨⟩
      exact .cons at_required (.cons at_required at_required.describes)
  | declaration identifier qualifier type initializer =>
      refine ((((hasSlots_field _ _ _).cons (by simp)).cons (by simp)).cons (by simp)).governs
        hread ?_
      rintro ⟨_, _, _, _⟩ ⟨⟩
      exact .cons at_scalar (.cons at_scalar (.append describes_optional describes_optional))
  | functionDefinition type arguments body =>
      refine (((hasSlots_field _ _ _).cons (by simp)).cons (by simp)).governs hread ?_
      rintro ⟨_, _, _⟩ ⟨⟩
      exact .append describes_optional (.append describes_optional at_required.describes)
  | functionCall identifier arguments =>
      refine ((hasSlots_field _ _ _).cons (by simp)).governs hread ?_
      rintro ⟨_, _⟩ ⟨⟩
      exact .append describes_optional describes_optional
  | ret value =>
      refine (hasSlots_field _ _ _).governs hread ?_
      rintro _ ⟨⟩
      exact describes_optional
  | index _ _ | assignment _ _ | ifThen _ _ | whileLoop _ _ =>
      refine ((hasSlots_field _ _ _).cons (by simp)).governs hread ?_
      rintro ⟨_, _⟩ ⟨⟩
      exact .cons at_required at_required.describes
  | addressOf _ | stackAlloc _ | rvalue _ | sizeof _ | print _ | evaluation _ =>
      refine (hasSlots_field _ _ _).governs hread ?_
      rintro _ ⟨⟩
      exact at_required.describes

end

end Interchange
end SyntaxDump

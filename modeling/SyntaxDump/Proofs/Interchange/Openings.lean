import Mathlib.Tactic
import SyntaxDump.Proofs.Interchange.Deletions
import SyntaxDump.Proofs.Interchange.Gaps

/-!
# Trees with a gap

A part of a tree can be replaced by any other one, and the tables of fields and
of members tell which parts there are.  For every kind of node the two fit
together: a record that is left open at a field with nodes in it is read as the
field is, and the part that is read goes into the place that the member has in
the tree.
-/

namespace SyntaxDump
namespace Interchange

open Json (Value)

/-- Are there nodes in the values with this role? -/
def Role.holdsNodes : Role → Bool
  | .node | .sequence | .block => true
  | .list role => role.holdsNodes
  | .scalar | .type => false

/-- Whatever tree is put in, it is a part of the whole, and putting in another tree
replaces it. -/
def Replaces (outer role : Role) (put : role.Tree → outer.Tree) : Prop :=
  ∀ tree, ∃ member ∈ outer.members (put tree), member.part = some ⟨role, tree, put⟩

section Slots

variable {α β : Type} (depth : Nat) {outer : Role}

/-- A slot of a record is the field of the table, and puts what the field has been
decoded to into the whole. -/
structure Slot.Opens (field : String × Role) (slot : Slot α) (make : α → outer.Tree)
    (result : α) : Prop where
  name : slot.name = field.1
  part : field.2.holdsNodes = true → ∃ put, Replaces outer field.2 put ∧ ∀ value, value ≠ .null →
    (slot.put [value] result).map make = (field.2.decode depth value).toOption.map put

/-- The slots are the fields of the table. -/
structure OpensTable (slots : List (Slot α)) (fields : Fields Role) (make : α → outer.Tree)
    (result : α) : Prop where
  names : slots.map Slot.name = fields.map Prod.fst
  slot : ∀ field ∈ fields, ∃ slot ∈ slots, slot.Opens depth field make result

variable {depth} {make : α × β → outer.Tree} {a : α} {b : β} {field : String × Role}
  {fields : Fields Role}

theorem Slot.Opens.first {slot : Slot α}
    (hslot : slot.Opens depth field (fun a => make (a, b)) a) :
    (slot.first : Slot (α × β)).Opens depth field make (a, b) where
  name := hslot.name
  part hpart := by
    obtain ⟨put, hreplaces, hput⟩ := hslot.part hpart
    refine ⟨put, hreplaces, fun value hnull => ?_⟩
    rw [← hput value hnull, Slot.first, Option.map_map]
    rfl

theorem Slot.Opens.second {slot : Slot β}
    (hslot : slot.Opens depth field (fun b => make (a, b)) b) :
    (slot.second : Slot (α × β)).Opens depth field make (a, b) where
  name := hslot.name
  part hpart := by
    obtain ⟨put, hreplaces, hput⟩ := hslot.part hpart
    refine ⟨put, hreplaces, fun value hnull => ?_⟩
    rw [← hput value hnull, Slot.second, Option.map_map]
    rfl

theorem OpensTable.single {slot : Slot α} {make : α → outer.Tree}
    (hslot : slot.Opens depth field make a) : OpensTable depth [slot] [field] make a where
  names := by simp [hslot.name]
  slot := by
    intro other hother
    obtain rfl := List.mem_singleton.mp hother
    exact ⟨slot, List.mem_singleton_self slot, hslot⟩

theorem OpensTable.cons {slot : Slot α} {slots : List (Slot β)}
    (hslot : slot.Opens depth field (fun a => make (a, b)) a)
    (hrest : OpensTable depth slots fields (fun b => make (a, b)) b) :
    OpensTable depth ([slot].map Slot.first ++ slots.map Slot.second) (field :: fields) make
      (a, b) where
  names := by
    have hnames : slots.map (fun slot => slot.name) = fields.map Prod.fst := hrest.names
    simp [Slot.first, Slot.second, Function.comp_def, hslot.name, hnames]
  slot := by
    intro other hother
    rcases List.mem_cons.mp hother with rfl | hmem
    · exact ⟨slot.first, by simp, hslot.first⟩
    · obtain ⟨found, hfound, hopens⟩ := hrest.slot other hmem
      exact ⟨found.second, List.mem_append_right _ (List.mem_map_of_mem hfound), hopens.second⟩

end Slots

section Fields

variable {α : Type} {depth : Nat} {outer : Role} {name : String}

/-- A field without nodes in it is not opened. -/
theorem opens_closed {role : Role} (hrole : role.holdsNodes = false) {decode : Value → Decoded α}
    {absent : Option α} {make : α → outer.Tree} {result : α} :
    (Slot.single name decode absent).Opens depth (name, role) make result where
  name := rfl
  part hpart := by
    rw [hrole] at hpart
    cases hpart

theorem opens_field {role : Role} {absent : Option role.Tree} {make : role.Tree → outer.Tree}
    {result : role.Tree} (hmake : Replaces outer role make) :
    (Slot.single name (role.decode depth) absent).Opens depth (name, role) make result where
  name := rfl
  part _ := ⟨make, hmake, fun _ _ => rfl⟩

theorem opens_optional {role : Role} {absent : Option (Option role.Tree)}
    {make : Option role.Tree → outer.Tree} {result : Option role.Tree}
    (hmake : Replaces outer role fun tree => make (some tree)) :
    (Slot.single name (optionOf (role.decode depth)) absent).Opens depth (name, role) make
      result where
  name := rfl
  part _ := by
    refine ⟨_, hmake, fun value hnull => ?_⟩
    change (optionOf (role.decode depth) value).toOption.map make = _
    rw [optionOf_of_ne_null _ hnull, toOption_map, Option.map_map]
    rfl

end Fields

/-- Opening a content at one of these fields. -/
structure OpensFields (depth : Nat) (outer : Role) (fields : Fields Role)
    (read : Content → Decoded outer.Tree) : Prop where
  gap : ∀ {name : String} {part : Role} {gap : Value → Content} {value : Value} {tree : outer.Tree},
    (name, part) ∈ fields → part.holdsNodes = true → Gap (fields.map Prod.fst) name gap →
    read (gap value) = .ok tree →
    ∃ put, Replaces outer part put ∧ ∀ value', value' ≠ .null →
      (read (gap value')).toOption = (part.decode depth value').toOption.map put

theorem Record.Aligned.opensFields {σ α : Type} {record : Record σ α} {slots : List (Slot α)}
    (hrecord : record.Aligned slots) {depth : Nat} {outer : Role} {fields : Fields Role}
    {make : α → outer.Tree} (htable : ∀ result, OpensTable depth slots fields make result)
    {subject : String} :
    OpensFields depth outer fields fun content => (record.read subject content).map make where
  gap := by
    intro name part gap value tree hfield hpart hgap hread
    obtain ⟨result, hresult, rfl⟩ := map_ok_iff.mp hread
    obtain ⟨slot, hslot, hopens⟩ := (htable result).slot _ hfield
    obtain ⟨put, hreplaces, hput⟩ := hopens.part hpart
    refine ⟨put, hreplaces, fun value' hnull => ?_⟩
    obtain rfl : slot.name = name := hopens.name
    rw [← (htable result).names] at hgap
    rw [toOption_map, hrecord.read_gap hslot hgap hresult, hput value' hnull]

section Kinds

variable {depth : Nat}

attribute [local simp] Slot.single Slot.first Slot.second Function.comp_def Replaces Role.members
  nodeMembers sequenceMembersTo blockMembersTo optionalMember Member.scalar Member.required
  Member.defaulted Member.branch

theorem opensFields_sequence {outer : Role} {make : List Node → outer.Tree}
    (hmake : Replaces outer (.list .node) make) {subject : String} :
    OpensFields depth outer sequenceFields fun content =>
      ((sequenceRecord (nodeOf depth)).read subject content).map make :=
  (aligned_field _ _ _).opensFields fun _ => .single (opens_field hmake)

theorem opensFields_block {outer : Role} {make : Block Node → outer.Tree}
    (hdeclarations : ∀ instructions,
      Replaces outer .sequence fun nodes => make ⟨some nodes, instructions⟩)
    (hinstructions : ∀ declarations,
      Replaces outer .sequence fun nodes => make ⟨declarations, some nodes⟩) :
    OpensFields depth outer blockFields fun content =>
      (blockOfContent (nodeOf depth) content).map make := by
  have hblock (content : Content) : (blockOfContent (nodeOf depth) content).map make =
      ((blockRecord (nodeOf depth)).read "struct Block" content).map
        fun parts => make ⟨parts.1, parts.2⟩ := by
    rw [blockOfContent]
    cases (blockRecord (nodeOf depth)).read "struct Block" content <;> rfl
  simp only [hblock]
  refine ((aligned_field _ _ _).cons (by simp)).opensFields ?_
  rintro ⟨declarations, instructions⟩
  exact .cons (opens_optional (hdeclarations instructions))
    (.single (opens_optional (hinstructions declarations)))

theorem opensFields_sequenceRecord {subject : String} :
    OpensFields depth .sequence sequenceFields
      ((sequenceRecord (nodeOf depth)).read subject) := by
  have hsequence := @opensFields_sequence depth .sequence id (by simp) subject
  simpa only [map_id_eq] using hsequence

theorem opensFields_blockOfContent :
    OpensFields depth .block blockFields (blockOfContent (nodeOf depth)) := by
  have hblock := @opensFields_block depth .block id (by simp) (by simp)
  simpa only [map_id_eq] using hblock

theorem opensFields_nodeOfContent (kind : Kind) :
    OpensFields depth .node (nodeFields kind)
      (nodeOfContent (nodeOf depth) (typeOf depth) kind) := by
  cases kind with
  | nil | null | input => exact ⟨fun hfield => nomatch hfield⟩
  | integer | double | string | var | stop | next | data =>
      exact (aligned_field _ _ _).opensFields fun _ => .single (opens_closed rfl)
  | sequence => exact opensFields_sequence (by simp)
  | block => exact opensFields_block (by simp) (by simp)
  | unary =>
      refine ((aligned_field _ _ _).cons (by simp)).opensFields ?_
      rintro ⟨_, _⟩
      exact .cons (opens_closed rfl) (.single (opens_field (by simp)))
  | binary =>
      refine (((aligned_field _ _ _).cons (by simp)).cons (by simp)).opensFields ?_
      rintro ⟨_, _, _⟩
      exact .cons (opens_closed rfl)
        (.cons (opens_field (by simp)) (.single (opens_field (by simp))))
  | ifElse =>
      refine (((aligned_field _ _ _).cons (by simp)).cons (by simp)).opensFields ?_
      rintro ⟨_, _, _⟩
      exact .cons (opens_field (by simp))
        (.cons (opens_field (by simp)) (.single (opens_field (by simp))))
  | declaration =>
      refine ((((aligned_field _ _ _).cons (by simp)).cons (by simp)).cons (by simp)).opensFields ?_
      rintro ⟨_, _, _, _⟩
      exact .cons (opens_closed rfl) (.cons (opens_closed rfl)
        (.cons (opens_closed rfl) (.single (opens_optional (by simp)))))
  | functionDefinition =>
      refine (((aligned_field _ _ _).cons (by simp)).cons (by simp)).opensFields ?_
      rintro ⟨_, _, _⟩
      exact .cons (opens_closed rfl)
        (.cons (opens_optional (by simp [or_and_right, exists_or]))
          (.single (opens_field (by simp [or_and_right, exists_or]))))
  | functionCall =>
      refine ((aligned_field _ _ _).cons (by simp)).opensFields ?_
      rintro ⟨_, _⟩
      exact .cons (opens_optional (by simp)) (.single (opens_optional (by simp)))
  | ret => exact (aligned_field _ _ _).opensFields fun _ => .single (opens_optional (by simp))
  | index | assignment | ifThen | whileLoop =>
      refine ((aligned_field _ _ _).cons (by simp)).opensFields ?_
      rintro ⟨_, _⟩
      exact .cons (opens_field (by simp)) (.single (opens_field (by simp)))
  | addressOf | stackAlloc | rvalue | sizeof | print | evaluation =>
      exact (aligned_field _ _ _).opensFields fun _ => .single (opens_field (by simp))

end Kinds

end Interchange
end SyntaxDump

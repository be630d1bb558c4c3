import Mathlib.Tactic
import SyntaxDump.Proofs.Interchange.Places
import SyntaxDump.Proofs.Tag.Pending

/-!
# Whole numbers in what is written

A tree with a number in one place is written with the number in one place.  In a
dump the node with the number stands somewhere below the root and has its own
lines there, and a document has the number in a field of the node.  Both are
followed from the number up to the root.
-/

namespace SyntaxDump
namespace Interchange

open Json (Value Context)

/-! ## The node with the number -/

namespace NumberSort

/-- A node holds a number. -/
inductive Holds : NumberSort → Node → Int → Prop where
  | integer (value : Int32) : Holds .integer (.integer value) value.toInt
  | stop (level : Int32) : Holds .stop (.stop level) level.toInt
  | next (level : Int32) : Holds .next (.next level) level.toInt
  | byte (front back : List UInt8) (byte : UInt8) :
      Holds .byte (.data (front ++ byte :: back)) byte.toNat

/-- The lines of a node with this number; data has none. -/
def lines (sort : NumberSort) (level : Nat) (number : String) : List Tag.Line :=
  match sort with
  | .integer => [⟨level, .inline "integer_node" number⟩]
  | .stop => [⟨level, .opening "stop_node" [("level", number)]⟩, ⟨level, .closing "stop_node"⟩]
  | .next => [⟨level, .opening "next_node" [("level", number)]⟩, ⟨level, .closing "next_node"⟩]
  | .byte => []

section Leaf

variable {sort : NumberSort} {leaf : Int → Node} {i : Int}

theorem toInt_ofInt (hlow : -2 ^ 31 ≤ i) (hhigh : i ≤ 2 ^ 31 - 1) : (Int32.ofInt i).toInt = i :=
  Int32.toInt_ofInt_of_le hlow (Int.lt_of_le_sub_one hhigh)

theorem toNat_ofNat (hlow : 0 ≤ i) (hhigh : i ≤ 255) : ((UInt8.ofNat i.toNat).toNat : ℤ) = i := by
  rw [UInt8.toNat_ofNat']
  omega

theorem Leaf.holds (hleaf : sort.Leaf leaf) (hi : sort.Admits i) : sort.Holds (leaf i) i := by
  cases hleaf with
  | integer => simpa only [toInt_ofInt hi.1 hi.2] using Holds.integer (Int32.ofInt i)
  | stop => simpa only [toInt_ofInt hi.1 hi.2] using Holds.stop (Int32.ofInt i)
  | next => simpa only [toInt_ofInt hi.1 hi.2] using Holds.next (Int32.ofInt i)
  | byte front back =>
      simpa only [toNat_ofNat hi.1 hi.2] using Holds.byte front back (UInt8.ofNat i.toNat)

theorem Holds.lines {node : Node} (hnode : sort.Holds node i) (level : Nat) :
    Tag.lines node level = sort.lines level (Decimal.integerText i) := by
  cases hnode <;> rfl

end Leaf

end NumberSort

/-! ## Dumps -/

/-- Does the property hold of all nodes in a tree? -/
def Role.Everywhere (p : Node → Prop) : (role : Role) → role.Tree → Prop
  | .scalar | .type => fun _ => True
  | .node => Node.Everywhere p
  | .sequence => Node.EverywhereAll p
  | .block => Node.EverywhereBlock p
  | .list role => fun trees => ∀ tree ∈ trees, role.Everywhere p tree

section Everywhere

variable {p : Node → Prop}

section Members

attribute [local simp] Role.Everywhere Role.members nodeMembers sequenceMembersTo blockMembersTo
  optionalMember Member.scalar Member.required Member.defaulted Member.branch

theorem everywhere_blockMembersTo {ω : Type} {body : Block Node} {make : Block Node → ω}
    (hbody : Node.EverywhereBlock p body) {member : Member ω}
    (hmember : member ∈ blockMembersTo body make) {part : Part ω} (hpart : part ∈ member.part) :
    part.role.Everywhere p part.tree := by
  revert part member
  obtain ⟨declarations, instructions⟩ := body
  cases declarations <;> cases instructions <;>
    simp_all [Node.EverywhereBlock, Node.EverywhereSequence?]

theorem Role.Everywhere.part {role : Role} {tree : role.Tree} (htree : role.Everywhere p tree)
    {member : Member role.Tree} (hmember : member ∈ role.members tree) {part : Part role.Tree}
    (hpart : part ∈ member.part) : part.role.Everywhere p part.tree := by
  revert part member
  cases role with
  | scalar => exact tree.elim
  | list => exact nofun
  | type => cases tree <;> simp [typeMembers, Role.Everywhere]
  | sequence => simpa [Tag.everywhereAll_iff] using htree
  | block => exact everywhere_blockMembersTo htree
  | node =>
      cases tree with
      | block body => exact everywhere_blockMembersTo htree.2
      | sequence nodes => simpa [Tag.everywhereAll_iff] using htree.2
      | declaration identifier qualifier type initializer =>
          cases type <;> cases initializer <;> simp_all [Node.Everywhere, Node.EverywhereOption]
      | functionDefinition type arguments body =>
          cases type <;> cases arguments <;> simp_all [Node.Everywhere, Node.EverywhereSequence?]
      | functionCall identifier arguments =>
          cases identifier <;> cases arguments <;>
            simp_all [Node.Everywhere, Node.EverywhereOption, Node.EverywhereSequence?]
      | ret value => cases value <;> simp_all [Node.Everywhere, Node.EverywhereOption]
      | _ => simp_all [Node.Everywhere]

end Members

theorem Opening.everywhere {leaf : Int → Node} {role : Role} {whole : Int → role.Tree}
    (hopening : Opening leaf role whole) {i : Int} (hwhole : role.Everywhere p (whole i)) :
    p (leaf i) := by
  induction hopening with
  | leaf => exact Node.Everywhere.self hwhole
  | part hreplaces _ ih =>
      obtain ⟨member, hmember, hpart⟩ := hreplaces _
      exact ih (hwhole.part hmember hpart)
  | item front back _ ih => exact ih (hwhole _ (by simp))

/-- The node with the number stands in the dump of the whole tree. -/
theorem Opening.exists_stands {leaf whole : Int → Node} (hopening : Opening leaf .node whole)
    (i : Int) (level : Nat) :
    ∃ before depth, Tag.Stands (whole i) level before (leaf i) depth := by
  by_contra hnone
  push Not at hnone
  have hwhole : (whole i).Everywhere (· ≠ leaf i) := by
    rw [Tag.everywhere_iff_stands level]
    rintro before node depth hstands rfl
    exact hnone before depth hstands
  exact hopening.everywhere hwhole rfl

end Everywhere

/-! ## Documents -/

section Members

attribute [local simp] Role.members typeMembers nodeMembers sequenceMembersTo blockMembersTo
  optionalMember Member.scalar Member.required Member.defaulted Member.branch kindOfType Node.kind
  typeFields nodeFields sequenceFields blockFields kindField

/-- A tree with members is read at the fields that the table of its role has, under the
names of the members. -/
theorem Role.hasFields (role : Role) {tree : role.Tree} {member : Member role.Tree}
    (hmember : member ∈ role.members tree) :
    ∃ fields, (∀ {members}, LacksKind members →
        HasFields role (.object (role.tag tree ++ members)) fields) ∧
      ∀ part ∈ member.part, (member.name, part.role) ∈ fields := by
  cases role with
  | scalar => exact tree.elim
  | list => cases hmember
  | type =>
      refine ⟨_, fun hmembers =>
        .type (split_tagged typeFamily (TypeKind.ofWord?_word (kindOfType tree)) hmembers), ?_⟩
      revert member
      cases tree <;> simp
  | node =>
      refine ⟨_, fun hmembers =>
        .node (split_tagged nodeFamily (Kind.ofWord?_word tree.kind) hmembers), ?_⟩
      revert member
      cases tree <;> simp [or_imp, forall_and]
  | sequence =>
      refine ⟨sequenceFields, fun _ => .sequence, ?_⟩
      revert member
      simp
  | block =>
      refine ⟨blockFields, fun _ => .block, ?_⟩
      revert member
      simp [or_imp, forall_and]

end Members

section Places

variable {f : Binary64 → Binary64}

theorem mapFloats_encode (role : Role) {tree : role.Tree} {member : Member role.Tree}
    {front back : List (Member role.Tree)}
    (hmembers : role.members tree = front ++ member :: back) :
    (role.encode tree).mapFloats f = .object (role.tag tree ++
      (Value.mapFloatsMembers f (entries front) ++
        (member.name, member.value.mapFloats f) :: Value.mapFloatsMembers f (entries back))) := by
  have hmember : member ∈ role.members tree := by simp [hmembers]
  rw [role.encode_eq_of_mem hmember, hmembers, entries_append, entries_cons]
  rcases role.tag_cases tree with htag | ⟨word, htag⟩ <;>
    simp [htag, Value.mapFloats, Value.mapFloatsMembers_eq_map, Member.entry]

/-- Where a part of a tree is written, the value of the whole has a gap at one of its
fields. -/
theorem Replaces.exists_fieldAt {outer part : Role} {put : part.Tree → outer.Tree}
    (hreplaces : Replaces outer part put) (tree : part.Tree) {inner : Context} {value : Value}
    (hinner : (part.encode tree).mapFloats f = inner.fill value) :
    ∃ place name, FieldAt outer place (name, part) inner ∧
      (outer.encode (put tree)).mapFloats f = place.fill value := by
  obtain ⟨member, hmember, hpart⟩ := hreplaces tree
  obtain ⟨front, back, hmembers⟩ := List.append_of_mem hmember
  obtain ⟨fields, hfields, hfield⟩ := outer.hasFields hmember
  have hfits := outer.fits_members (put tree) member hmember
  have hlacks := outer.lacksKind_entries (put tree)
  rw [hmembers, entries_append, entries_cons] at hlacks
  have hfront := lacksKind_mapFloatsMembers f fun entry hentry =>
    hlacks entry (List.mem_append_left _ hentry)
  have hback := lacksKind_mapFloatsMembers f fun entry hentry =>
    hlacks entry (List.mem_append_right _ (List.mem_cons_of_mem _ hentry))
  have hobject : HasFields outer (.object (outer.tag (put tree) ++
      (Value.mapFloatsMembers f (entries front) ++
        (member.name, inner.fill .null) :: Value.mapFloatsMembers f (entries back)))) fields :=
    hfields (hfront.append (List.forall_mem_cons.mpr ⟨hfits.name, hback⟩))
  rw [← List.append_assoc] at hobject
  refine ⟨_, member.name, .member hobject (hfield _ hpart), ?_⟩
  rw [mapFloats_encode outer hmembers, hfits.value _ hpart, hinner, Context.fill,
    List.append_assoc]

/-- The field with the number is the only one beside the kind. -/
theorem NumberSort.Inside.numberAt {sort : NumberSort} {inner : Context}
    (hinside : sort.Inside inner) :
    NumberAt sort .node (.member [("kind", .string sort.kind.word)] sort.field.1 inner []) := by
  have hlacks : LacksKind [(sort.field.1, inner.fill .null)] := by
    cases sort <;> simp [LacksKind, NumberSort.field]
  have hsplit := split_tagged nodeFamily (Kind.ofWord?_word sort.kind) hlacks
  have hfield : sort.field ∈ kindField :: nodeFields sort.kind := by cases sort <;> decide
  exact .here hsplit (.member (.node hsplit) hfield) hinside

theorem NumberSort.Holds.exists_place {sort : NumberSort} {node : Node} {i : Int}
    (hnode : sort.Holds node i) :
    ∃ place, NumberAt sort .node place ∧ (encode node).mapFloats f = place.fill (.integer i) := by
  cases hnode with
  | integer => exact ⟨_, NumberSort.Inside.integer.numberAt, rfl⟩
  | stop => exact ⟨_, NumberSort.Inside.stop.numberAt, rfl⟩
  | next => exact ⟨_, NumberSort.Inside.next.numberAt, rfl⟩
  | byte front back byte =>
      refine ⟨_, (NumberSort.Inside.byte (front.map fun byte => .integer byte.toNat)
        (back.map fun byte => .integer byte.toNat)).numberAt, ?_⟩
      have hbytes : ((front ++ byte :: back).map fun byte => Value.integer byte.toNat).map
          (Value.mapFloats f) = front.map (fun byte => .integer byte.toNat) ++
            .integer byte.toNat :: back.map fun byte => .integer byte.toNat := by
        simp [Function.comp_def, Value.mapFloats]
      rw [encode_eq_members]
      simp only [nodeMembers, entries, tagged, List.map_cons, List.map_nil, Member.entry,
        Value.mapFloats, Value.mapFloatsMembers, Value.mapFloatsItems_eq_map, hbytes]
      rfl

/-- A document of the tree has the number in a field of the same sort. -/
theorem Opening.exists_place {leaf : Int → Node} {role : Role} {whole : Int → role.Tree}
    (hopening : Opening leaf role whole) {sort : NumberSort} {i : Int}
    (hleaf : sort.Holds (leaf i) i) :
    ∃ place, NumberAt sort role place ∧
      (role.encode (whole i)).mapFloats f = place.fill (.integer i) := by
  induction hopening with
  | leaf => exact hleaf.exists_place
  | part hreplaces _ ih =>
      obtain ⟨inner, hinner, hvalue⟩ := ih
      obtain ⟨place, name, hfield, hplace⟩ := hreplaces.exists_fieldAt _ hvalue
      exact ⟨place, .field hfield hinner, hplace⟩
  | @item role inner front back _ ih =>
      obtain ⟨place, hplace, hvalue⟩ := ih
      refine ⟨.item (Value.mapFloatsItems f (front.map role.encode)) place
        (Value.mapFloatsItems f (back.map role.encode)), .item hplace, ?_⟩
      simp [Role.encode, Value.mapFloats, Value.mapFloatsItems_eq_map, Context.fill, hvalue]

end Places

end Interchange
end SyntaxDump

import Mathlib.Tactic
import SyntaxDump.Proofs.Interchange.Documents
import SyntaxDump.Proofs.Interchange.Openings
import SyntaxDump.Proofs.Json.Context

/-!
# The places of whole numbers

A document with a gap at a whole number is followed from the root down to the
gap.  Every value on the way opens at one of its fields, so in the end the
document is read as the number in the gap is.  The tree has the number in one
place and is the same everywhere else, and what is no number that fits there
makes the whole document unreadable.
-/

namespace SyntaxDump
namespace Interchange

open Json (Value Context)

/-! ## Fields with a gap -/

/-- A value with a gap, read in a role, has the gap in this field.  Its fields do not
depend on what stands in the gap. -/
inductive FieldAt : Role → Context → String × Role → Context → Prop where
  | member {role front name part inner back fields} :
      HasFields role ((Context.member front name inner back).fill .null) fields →
      (name, part) ∈ fields → FieldAt role (.member front name inner back) (name, part) inner
  | item {role front inner back fields field} :
      HasFields role ((Context.item front inner back).fill .null) fields →
      fields[front.length]? = some field → FieldAt role (.item front inner back) field inner

section FieldAt

variable {role : Role} {context inner : Context} {field : String × Role}

theorem FieldAt.fill_ne_null (hfield : FieldAt role context field inner) (value : Value) :
    context.fill value ≠ .null := by
  cases hfield <;> exact nofun

theorem others_append (front back : List (String × Value)) :
    others (front ++ back) = others front ++ others back :=
  List.filter_append ..

/-- The kind of a node stands beside the gap. -/
theorem FieldAt.tagged (hfield : FieldAt .node context field inner) (hkind : field.1 ≠ "kind") :
    ∃ tag kind gap, nodeFamily.kindOf tag = .ok kind ∧ field ∈ nodeFields kind ∧
      Gap ((nodeFields kind).map Prod.fst) field.1 gap ∧
      ∀ value, Tagged (context.fill value) tag (gap (inner.fill value)) := by
  cases hfield with
  | @member front name part inner back fields hfields hmem =>
      cases hfields with
      | @node _ kind content hsplit =>
          obtain ⟨tag, htagged, htag⟩ := split_eq_ok.mp hsplit
          have hname : name ≠ "kind" := hkind
          have hsame (value : Value) : occurrences "kind" (front ++ (name, value) :: back) =
              occurrences "kind" front ++ occurrences "kind" back := by
            rw [occurrences_append, occurrences_cons_of_ne hname]
          have hother (value : Value) : others (front ++ (name, value) :: back) =
              others front ++ (name, value) :: others back := by
            rw [others_append, others_cons_of_ne hname]
          rw [Context.fill] at htagged
          cases htagged with
          | object honce =>
              rw [hsame] at honce
              refine ⟨tag, kind, _, htag, ?_, .members (others front) (others back),
                fun value => ?_⟩
              · rcases List.mem_cons.mp hmem with heq | hmem
                · exact absurd (congrArg Prod.fst heq) hname
                · exact hmem
              · rw [Context.fill, ← hother]
                exact .object (by rw [hsame, honce])
  | @item front inner back fields field hfields hindex =>
      cases hfields with
      | @node _ kind content hsplit =>
          obtain ⟨tag, htagged, htag⟩ := split_eq_ok.mp hsplit
          rw [Context.fill] at htagged
          cases front with
          | nil =>
              -- the gap would be the kind itself
              exact absurd (congrArg Prod.fst (Option.some.inj hindex)).symm hkind
          | cons first front =>
              cases htagged with
              | array =>
                  have hmem : (nodeFields kind)[front.length]? = some field := by simpa using hindex
                  exact ⟨tag, kind, _, htag, List.mem_of_getElem? hmem,
                    .items front back (by simp [hmem]), fun value => .array⟩

/-- In a value without a kind, the gap is in one of the fields of its role. -/
theorem FieldAt.content {fields : Fields Role} (hfield : FieldAt role context field inner)
    (hfields : ∀ {value found}, HasFields role value found → found = fields) :
    ∃ gap, field ∈ fields ∧ Gap (fields.map Prod.fst) field.1 gap ∧
      ∀ value subject, contentOf (context.fill value) subject = .ok (gap (inner.fill value)) := by
  cases hfield with
  | @member front name part inner back found hfound hmem =>
      obtain rfl := hfields hfound
      exact ⟨_, hmem, .members front back, fun _ _ => rfl⟩
  | @item front inner back found field hfound hindex =>
      obtain rfl := hfields hfound
      exact ⟨_, List.mem_of_getElem? hindex, .items front back (by simp [hindex]), fun _ _ => rfl⟩

theorem FieldAt.exists_fields (hfield : FieldAt role context field inner) :
    ∃ value fields, HasFields role value fields ∧ field ∈ fields := by
  cases hfield with
  | member hfields hmem => exact ⟨_, _, hfields, hmem⟩
  | item hfields hindex => exact ⟨_, _, hfields, List.mem_of_getElem? hindex⟩

theorem holdsNodes_typeFields {kind : TypeKind} {field : String × Role}
    (hfield : field ∈ kindField :: typeFields kind) : field.2.holdsNodes = false := by
  revert hfield
  cases kind <;> simp +contextual [typeFields, kindField, Role.holdsNodes, or_imp]

theorem FieldAt.name_ne_kind (hfield : FieldAt .node context field inner)
    (hpart : field.2.holdsNodes = true) : field.1 ≠ "kind" := by
  obtain ⟨_, _, hfields, hmem⟩ := hfield.exists_fields
  intro hname
  have hnodup := hfields.nodup
  cases hfields with
  | node =>
      rcases List.mem_cons.mp hmem with rfl | hmem
      · cases hpart
      · rw [List.map_cons, List.nodup_cons] at hnodup
        exact hnodup.1 (List.mem_map.mpr ⟨field, hmem, hname⟩)

/-- Opening a value at one of its fields: with any other value in the gap, it is read
as the field is, and what is read takes its place in the tree. -/
theorem FieldAt.opens {name : String} {part : Role}
    (hfield : FieldAt role context (name, part) inner) (hpart : part.holdsNodes = true)
    {depth : Nat} {value : Value} {tree : role.Tree}
    (htree : role.decode depth (context.fill value) = .ok tree) :
    ∃ depth' put, Replaces role part put ∧ ∀ value', inner.fill value' ≠ .null →
      (role.decode depth (context.fill value')).toOption =
        (part.decode depth' (inner.fill value')).toOption.map put := by
  cases role with
  | scalar => exact tree.elim
  | list item =>
      obtain ⟨_, _, hfields, -⟩ := hfield.exists_fields
      cases hfields
  | type =>
      obtain ⟨_, _, hfields, hmem⟩ := hfield.exists_fields
      cases hfields with
      | type =>
          have hnone := holdsNodes_typeFields hmem
          rw [hpart] at hnone
          cases hnone
  | sequence =>
      obtain ⟨gap, hmem, hgap, hcontent⟩ := hfield.content fun hfields => hfields.unique .sequence
      have hdecode (value : Value) : sequenceOf (nodeOf depth) (context.fill value) =
          (sequenceRecord (nodeOf depth)).read "struct Sequence" (gap (inner.fill value)) := by
        rw [sequenceOf, hcontent]
        rfl
      simp only [Role.decode, hdecode] at htree ⊢
      obtain ⟨put, hreplaces, hput⟩ := opensFields_sequenceRecord.gap hmem hpart hgap htree
      exact ⟨depth, put, hreplaces, fun value' => hput _⟩
  | block =>
      obtain ⟨gap, hmem, hgap, hcontent⟩ := hfield.content fun hfields => hfields.unique .block
      have hdecode (value : Value) : blockOf (nodeOf depth) (context.fill value) =
          blockOfContent (nodeOf depth) (gap (inner.fill value)) := by
        rw [blockOf, hcontent]
        rfl
      simp only [Role.decode, hdecode] at htree ⊢
      obtain ⟨put, hreplaces, hput⟩ := opensFields_blockOfContent.gap hmem hpart hgap htree
      exact ⟨depth, put, hreplaces, fun value' => hput _⟩
  | node =>
      cases depth with
      | zero => cases htree
      | succ depth =>
          obtain ⟨tag, kind, gap, htag, hmem, hgap, htagged⟩ :=
            hfield.tagged (hfield.name_ne_kind hpart)
          have hdecode (value : Value) : nodeOf (depth + 1) (context.fill value) =
              nodeOfContent (nodeOf depth) (typeOf depth) kind (gap (inner.fill value)) := by
            rw [nodeOf, split_eq_ok.mpr ⟨tag, htagged value, htag⟩]
            rfl
          simp only [Role.decode, hdecode] at htree ⊢
          obtain ⟨put, hreplaces, hput⟩ :=
            (opensFields_nodeOfContent kind).gap hmem hpart hgap htree
          exact ⟨depth, put, hreplaces, fun value' => hput _⟩

end FieldAt

/-! ## Whole numbers -/

/-- The whole numbers in a tree: the value of an integer, the level of a stop or a
next, and a byte of data. -/
inductive NumberSort where
  | integer
  | stop
  | next
  | byte
deriving DecidableEq, Repr

namespace NumberSort

/-- The kind of the nodes with such a number. -/
def kind : NumberSort → Kind
  | .integer => .integer
  | .stop => .stop
  | .next => .next
  | .byte => .data

/-- The field that holds the number. -/
def field : NumberSort → String × Role
  | .integer => ("value", .scalar)
  | .stop => ("level", .scalar)
  | .next => ("level", .scalar)
  | .byte => ("bytes", .list .scalar)

/-- A value of the field has the gap at the number. -/
inductive Inside : NumberSort → Context → Prop where
  | integer : Inside .integer .hole
  | stop : Inside .stop .hole
  | next : Inside .next .hole
  | byte (front back : List Value) : Inside .byte (.item front .hole back)

/-- The numbers that fit. -/
def Admits (sort : NumberSort) (i : Int) : Prop :=
  match sort with
  | .byte => 0 ≤ i ∧ i ≤ 255
  | _ => -2 ^ 31 ≤ i ∧ i ≤ 2 ^ 31 - 1

instance (sort : NumberSort) (i : Int) : Decidable (sort.Admits i) := by
  cases sort <;> exact inferInstanceAs (Decidable (_ ∧ _))

/-- The number that a value is taken for. -/
def take (sort : NumberSort) : Value → Option Int
  | .integer i => if sort.Admits i then some i else none
  | _ => none

/-- A node with one number left open. -/
inductive Leaf : NumberSort → (Int → Node) → Prop where
  | integer : Leaf .integer fun i => .integer (Int32.ofInt i)
  | stop : Leaf .stop fun i => .stop (Int32.ofInt i)
  | next : Leaf .next fun i => .next (Int32.ofInt i)
  | byte (front back : List UInt8) :
      Leaf .byte fun i => .data (front ++ UInt8.ofNat i.toNat :: back)

end NumberSort

/-- A document has its gap at a number of this sort, below a value that is read in
this role. -/
inductive NumberAt (sort : NumberSort) : Role → Context → Prop where
  | here {context inner content} :
      nodeFamily.split (context.fill .null) = .ok (sort.kind, content) →
      FieldAt .node context sort.field inner → sort.Inside inner → NumberAt sort .node context
  | field {role context name part inner} : FieldAt role context (name, part) inner →
      NumberAt sort part inner → NumberAt sort role context
  | item {role front inner back} : NumberAt sort role inner →
      NumberAt sort (.list role) (.item front inner back)

/-- A tree with a part left open, which is `leaf` of a number. -/
inductive Opening (leaf : Int → Node) : (role : Role) → (Int → role.Tree) → Prop where
  | leaf : Opening leaf .node leaf
  | part {outer part put inner} : Replaces outer part put → Opening leaf part inner →
      Opening leaf outer fun i => put (inner i)
  | item {role inner} (front back : List role.Tree) : Opening leaf role inner →
      Opening leaf (.list role) fun i => front ++ inner i :: back

section NumberAt

variable {role : Role} {context : Context}

theorem NumberAt.holdsNodes {sort : NumberSort} (hplace : NumberAt sort role context) :
    role.holdsNodes = true := by
  induction hplace with
  | here => rfl
  | @field role context name part inner hfield hinner ih =>
      obtain ⟨_, _, hfields, hmem⟩ := hfield.exists_fields
      cases hfields with
      | type =>
          have hnone := holdsNodes_typeFields hmem
          rw [ih] at hnone
          cases hnone
      | _ => rfl
  | item _ ih => exact ih

theorem NumberAt.fill_ne_null {sort : NumberSort} (hplace : NumberAt sort role context)
    (value : Value) : context.fill value ≠ .null := by
  cases hplace with
  | here _ hfield => exact hfield.fill_ne_null value
  | field hfield => exact hfield.fill_ne_null value
  | item => exact nofun

theorem decodeAll_gap {α : Type} {decode : Value → Decoded α} {front back : List Value}
    {value : Value} {results : List α}
    (hread : decodeAll decode (front ++ value :: back) = .ok results) :
    ∃ left right, ∀ value', (decodeAll decode (front ++ value' :: back)).toOption =
      (decode value').toOption.map fun a => left ++ a :: right := by
  induction front generalizing results with
  | nil =>
      simp only [List.nil_append, decodeAll, bind_ok_iff] at hread
      obtain ⟨a, -, right, hright, -⟩ := hread
      refine ⟨[], right, fun value' => ?_⟩
      rw [List.nil_append, toOption_decodeAll_cons, hright]
      cases decode value' <;> rfl
  | cons first front ih =>
      simp only [List.cons_append, decodeAll, bind_ok_iff] at hread
      obtain ⟨a, ha, rest, hrest, -⟩ := hread
      obtain ⟨left, right, hgap⟩ := ih hrest
      refine ⟨a :: left, right, fun value' => ?_⟩
      rw [List.cons_append, toOption_decodeAll_cons, ha, hgap]
      cases decode value' <;> rfl

theorem toOption_int32Of {sort : NumberSort} (hsort : sort ≠ .byte) (value : Value) :
    (int32Of value).toOption = (sort.take value).map Int32.ofInt := by
  cases value with
  | integer i =>
      have hadmits : sort.Admits i ↔ -(natPow 2 31 : ℤ) ≤ i ∧ i < natPow 2 31 := by
        cases sort with
        | byte => exact absurd rfl hsort
        | _ => exact and_congr Iff.rfl Int.le_sub_one_iff
      simp only [int32Of, NumberSort.take, hadmits]
      split_ifs <;> rfl
  | _ => rfl

theorem toOption_byteOf (value : Value) :
    (byteOf value).toOption = (NumberSort.byte.take value).map fun i => UInt8.ofNat i.toNat := by
  cases value with
  | integer i =>
      have hadmits : NumberSort.byte.Admits i ↔ 0 ≤ i ∧ i < natPow 2 8 := by
        unfold NumberSort.Admits natPow
        omega
      simp only [byteOf, NumberSort.take, hadmits]
      split_ifs <;> rfl
  | _ => rfl

theorem read_single_gap {α : Type} {name subject : String} {decode : Value → Decoded α}
    {absent : Option α} {make : α → Node} {gap : Value → Content} (hgap : Gap [name] name gap)
    {value : Value} {node : Node}
    (hread : ((Record.field name decode absent).read subject (gap value)).map make = .ok node)
    (value' : Value) :
    (((Record.field name decode absent).read subject (gap value')).map make).toOption =
      (decode value').toOption.map make := by
  obtain ⟨result, hresult, -⟩ := map_ok_iff.mp hread
  rw [toOption_map, (aligned_field name decode absent).read_gap (List.mem_singleton_self _) hgap
    hresult value']
  rfl

/-- The node with the number. -/
theorem NumberSort.Inside.decode {sort : NumberSort} {inner : Context} (hinside : sort.Inside inner)
    {depth : Nat} {gap : Value → Content} {i : Int} {node : Node}
    (hgap : Gap ((nodeFields sort.kind).map Prod.fst) sort.field.1 gap)
    (hnode : nodeOfContent (nodeOf depth) (typeOf depth) sort.kind
      (gap (inner.fill (.integer i))) = .ok node) :
    ∃ leaf, sort.Leaf leaf ∧ ∀ value,
      (nodeOfContent (nodeOf depth) (typeOf depth) sort.kind (gap (inner.fill value))).toOption =
        (sort.take value).map leaf := by
  cases hinside with
  | integer =>
      refine ⟨_, .integer, fun value => (read_single_gap hgap hnode value).trans ?_⟩
      rw [toOption_int32Of (by decide : NumberSort.integer ≠ .byte), Option.map_map]
      rfl
  | stop =>
      refine ⟨_, .stop, fun value => (read_single_gap hgap hnode value).trans ?_⟩
      rw [toOption_int32Of (by decide : NumberSort.stop ≠ .byte), Option.map_map]
      rfl
  | next =>
      refine ⟨_, .next, fun value => (read_single_gap hgap hnode value).trans ?_⟩
      rw [toOption_int32Of (by decide : NumberSort.next ≠ .byte), Option.map_map]
      rfl
  | byte front back =>
      have hread := read_single_gap hgap hnode
      have hlist := hread (.array (front ++ .integer i :: back))
      obtain ⟨bytes, hbytes, -⟩ := Option.map_eq_some_iff.mp
        (hlist.symm.trans (toOption_eq_some.mpr hnode))
      obtain ⟨left, right, hlist'⟩ := decodeAll_gap (toOption_eq_some.mp hbytes)
      refine ⟨_, .byte left right, fun value => (hread _).trans ?_⟩
      change (decodeAll byteOf (front ++ value :: back)).toOption.map Node.data = _
      rw [hlist', toOption_byteOf, Option.map_map, Option.map_map]
      rfl

/-- A value is read as the number in its gap is, and the number takes its place in
the tree. -/
theorem NumberAt.decode {sort : NumberSort} (hplace : NumberAt sort role context) {depth : Nat}
    {i : Int} {tree : role.Tree}
    (htree : role.decode depth (context.fill (.integer i)) = .ok tree) :
    ∃ leaf whole, sort.Leaf leaf ∧ Opening leaf role whole ∧ ∀ value,
      (role.decode depth (context.fill value)).toOption = (sort.take value).map whole := by
  induction hplace generalizing depth with
  | @here context inner content hsplit hfield hinside =>
      cases depth with
      | zero => cases htree
      | succ depth =>
          have hkind : sort.field.1 ≠ "kind" := by cases sort <;> decide
          obtain ⟨tag, kind, gap, htag, hmem, hgap, htagged⟩ := hfield.tagged hkind
          have hsplit' (value : Value) : nodeFamily.split (context.fill value) =
              .ok (kind, gap (inner.fill value)) := split_eq_ok.mpr ⟨tag, htagged value, htag⟩
          obtain rfl : kind = sort.kind := by
            rw [hsplit'] at hsplit
            cases hsplit
            rfl
          have hdecode (value : Value) : nodeOf (depth + 1) (context.fill value) =
              nodeOfContent (nodeOf depth) (typeOf depth) sort.kind (gap (inner.fill value)) := by
            rw [nodeOf, hsplit']
            rfl
          simp only [Role.decode, hdecode] at htree ⊢
          obtain ⟨leaf, hleaf, hread⟩ := hinside.decode hgap htree
          exact ⟨leaf, leaf, hleaf, .leaf, hread⟩
  | @field role context name part inner hfield hinner ih =>
      obtain ⟨depth', put, hreplaces, hput⟩ := hfield.opens hinner.holdsNodes htree
      have hread := hput (.integer i) (hinner.fill_ne_null _)
      rw [htree] at hread
      obtain ⟨tree', htree', -⟩ := Option.map_eq_some_iff.mp hread.symm
      obtain ⟨leaf, whole, hleaf, hopening, hdecode⟩ := ih (toOption_eq_some.mp htree')
      refine ⟨leaf, _, hleaf, .part hreplaces hopening, fun value => ?_⟩
      rw [hput value (hinner.fill_ne_null value), hdecode, Option.map_map]
      rfl
  | @item role front inner back hinner ih =>
      obtain ⟨left, right, hgap⟩ := decodeAll_gap htree
      have hread := hgap (inner.fill (.integer i))
      rw [show decodeAll (role.decode depth) (front ++ inner.fill (.integer i) :: back) = .ok tree
        from htree] at hread
      obtain ⟨tree', htree', -⟩ := Option.map_eq_some_iff.mp hread.symm
      obtain ⟨leaf, whole, hleaf, hopening, hdecode⟩ := ih (toOption_eq_some.mp htree')
      refine ⟨leaf, _, hleaf, .item left right hopening, fun value => ?_⟩
      change (decodeAll (role.decode depth) (front ++ inner.fill value :: back)).toOption = _
      rw [hgap, hdecode, Option.map_map]
      rfl

theorem NumberAt.exists_field {sort : NumberSort} (hplace : NumberAt sort .node context) :
    ∃ field inner, FieldAt .node context field inner ∧ field.1 ≠ "kind" := by
  cases hplace with
  | here _ hfield => exact ⟨_, _, hfield, by cases sort <;> decide⟩
  | field hfield hinner => exact ⟨_, _, hfield, hfield.name_ne_kind hinner.holdsNodes⟩

/-- With another value in the gap, the root of a document still has a word for its
kind and is read like any other node. -/
theorem NumberAt.decodesTo_iff {sort : NumberSort} (hplace : NumberAt sort .node context)
    {value : Value} {root : Node} (hroot : DecodesTo (context.fill value) root) (value' : Value)
    {root' : Node} :
    DecodesTo (context.fill value') root' ↔
      nodeOf (Json.maxDepth + 1) (context.fill value') = .ok root' := by
  obtain ⟨field, inner, hfield, hname⟩ := hplace.exists_field
  obtain ⟨tag, kind, gap, -, -, -, htagged⟩ := hfield.tagged hname
  obtain ⟨_, _, ⟨tag', htagged', hkind⟩, -⟩ := hroot
  obtain ⟨word, hword, -⟩ := rootKind?_eq_some.mp hkind
  apply decodesTo_iff_of_word
  intro other content hother
  rw [hother.tag_unique (htagged value'), (htagged value).tag_unique htagged']
  exact ⟨word, hword⟩

end NumberAt

end Interchange
end SyntaxDump

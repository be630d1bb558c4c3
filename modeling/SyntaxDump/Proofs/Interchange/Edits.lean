import Mathlib.Tactic
import SyntaxDump.Proofs.Interchange.Fields

/-!
# Edits that decoding does not notice

Two edits leave a tree as it is: the members of an object may be put into
another order, and a member may be added to an object that is read as a record
and has no field of that name.  Whether a name is a field depends on what the
object is read as, so edits are told with the role of the value.  The role of a
part follows from the kind of the whole.

One edit is a relation between values; it is shown for each decoder that an edit
preserves its result, first for scalars, then for types and nodes by induction
on the depth that they are decoded to.
-/

namespace SyntaxDump
namespace Interchange

open Json (Value)

/-! ## Roles -/

/-- What a value is read as. -/
inductive Role where
  /-- a number, a text, a word or a kind -/
  | scalar
  | type
  | node
  | sequence
  | block
  | list (items : Role)
deriving DecidableEq

def typeFields : TypeKind → Fields Role
  | .int => []
  | .double => []
  | .string => []
  | .void => []
  | .unspec => []
  | .pointer => [("referenced", .type)]
  | .functional => [("inputs", .list .type), ("output", .type)]

def sequenceFields : Fields Role := [("nodes", .list .node)]

def blockFields : Fields Role := [("declarations", .sequence), ("instructions", .sequence)]

def nodeFields : Kind → Fields Role
  | .integer => [("value", .scalar)]
  | .double => [("value", .scalar)]
  | .string => [("value", .scalar)]
  | .nil => []
  | .null => []
  | .data => [("bytes", .list .scalar)]
  | .unary => [("op", .scalar), ("argument", .node)]
  | .binary => [("op", .scalar), ("left", .node), ("right", .node)]
  | .var => [("name", .scalar)]
  | .index => [("base", .node), ("index", .node)]
  | .addressOf => [("lvalue", .node)]
  | .stackAlloc => [("argument", .node)]
  | .rvalue => [("lvalue", .node)]
  | .assignment => [("lvalue", .node), ("rvalue", .node)]
  | .sequence => sequenceFields
  | .block => blockFields
  | .declaration =>
      [("identifier", .scalar), ("qualifier", .scalar), ("type", .type), ("initializer", .node)]
  | .functionDefinition => [("type", .type), ("arguments", .sequence), ("block", .block)]
  | .functionCall => [("identifier", .node), ("arguments", .sequence)]
  | .sizeof => [("expression", .node)]
  | .ifThen => [("condition", .node), ("block", .node)]
  | .ifElse => [("condition", .node), ("then_block", .node), ("else_block", .node)]
  | .whileLoop => [("condition", .node), ("block", .node)]
  | .ret => [("value", .node)]
  | .stop => [("level", .scalar)]
  | .next => [("level", .scalar)]
  | .input => []
  | .print => [("arguments", .sequence)]
  | .evaluation => [("argument", .node)]

/-- The field that tells the kind of a tagged value. -/
def kindField : String × Role := ("kind", .scalar)

/-- The fields that a value has if it is read in a role. -/
inductive HasFields : Role → Value → Fields Role → Prop where
  | type {value kind content} : typeFamily.split value = .ok (kind, content) →
      HasFields .type value (kindField :: typeFields kind)
  | node {value kind content} : nodeFamily.split value = .ok (kind, content) →
      HasFields .node value (kindField :: nodeFields kind)
  | sequence {value} : HasFields .sequence value sequenceFields
  | block {value} : HasFields .block value blockFields

theorem HasFields.unique {role : Role} {value : Value} {fields fields' : Fields Role}
    (hfields : HasFields role value fields) (hfields' : HasFields role value fields') :
    fields = fields' := by
  cases hfields with
  | type hsplit =>
      cases hfields' with
      | type hsplit' =>
          rw [hsplit] at hsplit'
          cases hsplit'
          rfl
  | node hsplit =>
      cases hfields' with
      | node hsplit' =>
          rw [hsplit] at hsplit'
          cases hsplit'
          rfl
  | sequence =>
      cases hfields'
      rfl
  | block =>
      cases hfields'
      rfl

theorem HasFields.nodup {role : Role} {value : Value} {fields : Fields Role}
    (hfields : HasFields role value fields) : (fields.map Prod.fst).Nodup := by
  cases hfields with
  | @type _ kind _ _ => cases kind <;> decide
  | @node _ kind _ _ => cases kind <;> decide
  | sequence => decide
  | block => decide

/-! ## Edits -/

/-- One object somewhere in a value has its members in another order. -/
inductive Reordered : Value → Value → Prop where
  | here {members members'} : members.Perm members' →
      Reordered (.object members) (.object members')
  | item {front back value value'} : Reordered value value' →
      Reordered (.array (front ++ value :: back)) (.array (front ++ value' :: back))
  | member {front back name value value'} : Reordered value value' →
      Reordered (.object (front ++ (name, value) :: back))
        (.object (front ++ (name, value') :: back))

theorem Reordered.depth_le {value value' : Value} (hreordered : Reordered value value') :
    value'.depth ≤ value.depth := by
  induction hreordered with
  | @here members members' hperm =>
      have hmembers := Value.depth_object_le_iff.mp (Nat.le_refl (Value.object members).depth)
      exact Value.depth_object_le_iff.mpr fun member hmember =>
        hmembers member (hperm.mem_iff.mpr hmember)
  | @item front back value value' _ ih =>
      have hitems := Value.depth_array_le_iff.mp
        (Nat.le_refl (Value.array (front ++ value :: back)).depth)
      simp only [List.forall_mem_append, List.forall_mem_cons] at hitems
      obtain ⟨hfront, hvalue, hback⟩ := hitems
      refine Value.depth_array_le_iff.mpr ?_
      simp only [List.forall_mem_append, List.forall_mem_cons]
      exact ⟨hfront, ih.trans hvalue, hback⟩
  | @member front back name value value' _ ih =>
      have hmembers := Value.depth_object_le_iff.mp
        (Nat.le_refl (Value.object (front ++ (name, value) :: back)).depth)
      simp only [List.forall_mem_append, List.forall_mem_cons] at hmembers
      obtain ⟨hfront, hvalue, hback⟩ := hmembers
      refine Value.depth_object_le_iff.mpr ?_
      simp only [List.forall_mem_append, List.forall_mem_cons]
      exact ⟨hfront, ih.trans hvalue, hback⟩

theorem depth_le_of_reordered {value value' : Value}
    (hreordered : Relation.ReflTransGen Reordered value value') :
    value'.depth ≤ value.depth := by
  induction hreordered with
  | refl => exact Nat.le_refl _
  | tail _ hstep ih => exact hstep.depth_le.trans ih

/-- One edit somewhere in a value that is read in a role: a new order of the
members of an object, or a new member that is no field. -/
inductive Edited : Role → Value → Value → Prop where
  | reordered {role value value'} : Reordered value value' → Edited role value value'
  | unknown {role front back name extra fields} :
      HasFields role (.object (front ++ back)) fields → name ∉ fields.map Prod.fst →
      Edited role (.object (front ++ back)) (.object (front ++ (name, extra) :: back))
  | member {role front back name part value value' fields} :
      HasFields role (.object (front ++ (name, value) :: back)) fields →
      (name, part) ∈ fields → Edited part value value' →
      Edited role (.object (front ++ (name, value) :: back))
        (.object (front ++ (name, value') :: back))
  | field {role front back name part value value' fields} :
      HasFields role (.array (front ++ value :: back)) fields →
      fields[front.length]? = some (name, part) → Edited part value value' →
      Edited role (.array (front ++ value :: back)) (.array (front ++ value' :: back))
  | item {role front back value value'} : Edited role value value' →
      Edited (.list role) (.array (front ++ value :: back)) (.array (front ++ value' :: back))

/-- At most one edit. -/
def Same (role : Role) : Value → Value → Prop := Relation.ReflGen (Edited role)

theorem preserves_same {α : Type} {decode : Value → Decoded α} {role : Role}
    (hdecode : Preserves decode (Edited role)) : Preserves decode (Same role) := by
  intro value value' a hsame hvalue
  cases hsame with
  | refl => exact hvalue
  | single hedit => exact hdecode hedit hvalue

/-! ## The members of an edited object -/

theorem kept_of_eq {role : Role} {values values' : List Value} (heq : values = values') :
    Kept (Same role) values values' := by
  subst heq
  exact ⟨id, fun value hvalue => ⟨value, hvalue, .refl⟩⟩

theorem kept_of_perm {role : Role} {values values' : List Value} (hperm : values.Perm values') :
    Kept (Same role) values values' := by
  constructor
  · rintro rfl
    exact hperm.nil_eq.symm
  · rintro value rfl
    exact ⟨value, List.perm_singleton.mp hperm.symm, .refl⟩

theorem kept_replace {role : Role} {value value' : Value} (hedit : Edited role value value')
    (front back : List Value) :
    Kept (Same role) (front ++ value :: back) (front ++ value' :: back) := by
  constructor
  · intro hnil
    simp at hnil
  · intro single hsingle
    obtain ⟨rfl, rfl, rfl⟩ : front = [] ∧ value = single ∧ back = [] := by
      cases front with
      | nil => simpa using hsingle
      | cons first front => simp at hsingle
    exact ⟨value', rfl, .single hedit⟩

theorem membersKept_replace {fields : Fields Role} {front back : List (String × Value)}
    {name : String} {value value' : Value}
    (hparts : ∀ part, (name, part) ∈ fields → Edited part value value') :
    MembersKept Same fields (front ++ (name, value) :: back)
      (front ++ (name, value') :: back) := by
  rintro ⟨other, part⟩ hfield
  simp only [occurrences_append]
  by_cases hname : name = other
  · subst hname
    simp only [occurrences_cons_self]
    exact kept_replace (hparts part hfield) _ _
  · simp only [occurrences_cons_of_ne hname]
    exact kept_of_eq rfl

theorem eq_of_mem_of_nodup {fields : Fields Role} (hnodup : (fields.map Prod.fst).Nodup)
    {name : String} {part part' : Role} (hpart : (name, part) ∈ fields)
    (hpart' : (name, part') ∈ fields) : part = part' := by
  have heq := List.inj_on_of_nodup_map hnodup hpart hpart' rfl
  exact congrArg Prod.snd heq

theorem Edited.membersKept {role : Role} {members : List (String × Value)} {value' : Value}
    {fields : Fields Role} (hfields : HasFields role (.object members) fields)
    (hedit : Edited role (.object members) value') :
    ∃ members', value' = .object members' ∧ MembersKept Same fields members members' := by
  cases hedit with
  | reordered hreordered =>
      cases hreordered with
      | here hperm =>
          exact ⟨_, rfl, fun field _ => kept_of_perm (occurrences_perm field.1 hperm)⟩
      | member hvalue =>
          exact ⟨_, rfl, membersKept_replace fun part _ => .reordered hvalue⟩
  | @unknown _ front back name extra fields' hfields' hname =>
      obtain rfl := hfields.unique hfields'
      refine ⟨_, rfl, ?_⟩
      rintro ⟨other, part⟩ hfield
      have hother : name ≠ other := by
        rintro rfl
        exact hname (List.mem_map_of_mem hfield)
      rw [occurrences_append, occurrences_append, occurrences_cons_of_ne hother]
      exact kept_of_eq rfl
  | @member _ front back name part value value' fields' hfields' hpart hvalue =>
      obtain rfl := hfields.unique hfields'
      refine ⟨_, rfl, membersKept_replace ?_⟩
      intro part' hpart'
      obtain rfl := eq_of_mem_of_nodup hfields.nodup hpart hpart'
      exact hvalue

/-! ## The items of an edited list -/

theorem itemsKept_refl (fields : Fields Role) (items : List Value) :
    ItemsKept Same fields items items := by
  induction fields generalizing items with
  | nil => rfl
  | cons field fields ih =>
      cases items with
      | nil => rfl
      | cons item items => exact ⟨.refl, ih items⟩

theorem itemsKept_replace {fields : Fields Role} {front back : List Value} {value value' : Value}
    (hparts : ∀ field ∈ fields[front.length]?, Edited field.2 value value') :
    ItemsKept Same fields (front ++ value :: back) (front ++ value' :: back) := by
  induction front generalizing fields with
  | nil =>
      cases fields with
      | nil => simp [ItemsKept]
      | cons field fields =>
          exact ⟨.single (hparts field (by simp)), itemsKept_refl fields back⟩
  | cons item front ih =>
      cases fields with
      | nil => simp [ItemsKept]
      | cons field fields =>
          exact ⟨.refl, ih fun field' hfield' => hparts field' (by simpa using hfield')⟩

theorem Edited.itemsKept {role : Role} {items : List Value} {value' : Value}
    {fields : Fields Role} (hfields : HasFields role (.array items) fields)
    (hedit : Edited role (.array items) value') :
    ∃ items', value' = .array items' ∧ ItemsKept Same fields items items' := by
  cases hedit with
  | reordered hreordered =>
      cases hreordered with
      | item hvalue => exact ⟨_, rfl, itemsKept_replace fun field _ => .reordered hvalue⟩
  | @field _ front back name part value value' fields' hfields' hpart hvalue =>
      obtain rfl := hfields.unique hfields'
      refine ⟨_, rfl, itemsKept_replace ?_⟩
      rintro field hfield
      rw [hpart] at hfield
      cases hfield
      exact hvalue
  | item hvalue => cases hfields

/-! ## Scalars -/

theorem Edited.of_scalar {value value' : Value} (hedit : Edited .scalar value value') :
    Reordered value value' := by
  cases hedit with
  | reordered hreordered => exact hreordered
  | unknown hfields => cases hfields
  | member hfields => cases hfields
  | field hfields => cases hfields

/-- A decoder that takes only values in which there is nothing to reorder. -/
theorem preserves_scalar {α : Type} {decode : Value → Decoded α}
    (hdecode : ∀ {value a}, decode value = .ok a → ∀ value', Reordered value value' →
      value' = value) : Preserves decode (Same .scalar) := by
  refine preserves_same fun {value value' a} hedit hvalue => ?_
  rw [hdecode hvalue value' hedit.of_scalar]
  exact hvalue

theorem preserves_int32Of : Preserves int32Of (Same .scalar) := by
  refine preserves_scalar fun {value a} hvalue value' hreordered => ?_
  cases hreordered <;> cases hvalue

theorem preserves_byteOf : Preserves byteOf (Same .scalar) := by
  refine preserves_scalar fun {value a} hvalue value' hreordered => ?_
  cases hreordered <;> cases hvalue

theorem preserves_textOf : Preserves textOf (Same .scalar) := by
  refine preserves_scalar fun {value a} hvalue value' hreordered => ?_
  cases hreordered <;> cases hvalue

theorem preserves_doubleOf : Preserves doubleOf (Same .scalar) := by
  refine preserves_scalar fun {value a} hvalue value' hreordered => ?_
  cases hreordered <;> cases hvalue

theorem preserves_kindOf {κ : Type} (family : Family κ) :
    Preserves family.kindOf (Same .scalar) := by
  refine preserves_scalar fun {value a} hvalue value' hreordered => ?_
  cases hreordered <;> cases hvalue

theorem Reordered.object_nil {value' : Value} (hreordered : Reordered (.object []) value') :
    value' = .object [] := by
  generalize hmembers : ([] : List (String × Value)) = members at hreordered
  cases hreordered with
  | here hperm =>
      subst hmembers
      rw [hperm.nil_eq]
  | member hvalue => simp at hmembers

theorem Reordered.object_singleton {name : String} {value value' : Value}
    (hreordered : Reordered (.object [(name, value)]) value') :
    value' = .object [(name, value)] ∨
      ∃ changed, Reordered value changed ∧ value' = .object [(name, changed)] := by
  generalize hmembers : [(name, value)] = members at hreordered
  cases hreordered with
  | here hperm =>
      subst hmembers
      rw [List.perm_singleton.mp hperm.symm]
      exact .inl rfl
  | @member front back other old new hvalue =>
      cases front with
      | nil =>
          cases hmembers
          exact .inr ⟨new, hvalue, rfl⟩
      | cons first front => simp at hmembers

theorem wordOf_eq_ok {α : Type} {ofWord : String → Decoded α} {value : Value} {a : α}
    (hvalue : wordOf ofWord value = .ok a) :
    (∃ word, value = .string word) ∨
      ∃ word content, value = .object [(word, content)] ∧
        (content = .null ∨ content = .object []) := by
  revert hvalue
  fun_cases wordOf ofWord value with
  | case1 word => exact fun _ => .inl ⟨word, rfl⟩
  | case2 word content =>
      intro hvalue
      rw [bind_ok_iff] at hvalue
      obtain ⟨result, -, hcontent⟩ := hvalue
      refine .inr ⟨word, content, rfl, ?_⟩
      split at hcontent
      · exact .inl rfl
      · exact .inr rfl
      · cases hcontent
  | _ => nofun

theorem preserves_wordOf {α : Type} (ofWord : String → Decoded α) :
    Preserves (wordOf ofWord) (Same .scalar) := by
  refine preserves_scalar fun {value a} hvalue value' hreordered => ?_
  rcases wordOf_eq_ok hvalue with ⟨word, rfl⟩ | ⟨word, content, rfl, hcontent⟩
  · cases hreordered
  · rcases hreordered.object_singleton with hsame | ⟨changed, hchanged, hvalue'⟩
    · exact hsame
    · rcases hcontent with rfl | rfl
      · cases hchanged
      · rw [hvalue', hchanged.object_nil]

/-! ## Lists and optional values -/

theorem decodeAll_replace {α : Type} {decode : Value → Decoded α} {value value' : Value}
    (hdecode : ∀ {a}, decode value = .ok a → decode value' = .ok a)
    {front back : List Value} {results : List α}
    (hall : decodeAll decode (front ++ value :: back) = .ok results) :
    decodeAll decode (front ++ value' :: back) = .ok results := by
  induction front generalizing results with
  | nil =>
      simp only [List.nil_append, decodeAll, bind_ok_iff] at hall ⊢
      obtain ⟨a, ha, others, hothers, hdone⟩ := hall
      exact ⟨a, hdecode ha, others, hothers, hdone⟩
  | cons first front ih =>
      simp only [List.cons_append, decodeAll, bind_ok_iff] at hall ⊢
      obtain ⟨a, ha, others, hothers, hdone⟩ := hall
      exact ⟨a, ha, others, ih hothers, hdone⟩

theorem preserves_listOf {α : Type} {decode : Value → Decoded α} {role : Role}
    (hdecode : Preserves decode (Same role)) : Preserves (listOf decode) (Same (.list role)) := by
  refine preserves_same fun {value value' a} hedit hvalue => ?_
  cases value with
  | array items =>
      cases hedit with
      | reordered hreordered =>
          cases hreordered with
          | item hitem => exact decodeAll_replace (hdecode (.single (.reordered hitem))) hvalue
      | field hfields => cases hfields
      | item hitem => exact decodeAll_replace (hdecode (.single hitem)) hvalue
  | _ => cases hvalue

theorem Edited.ne_null {role : Role} {value value' : Value} (hedit : Edited role value value') :
    value ≠ .null ∧ value' ≠ .null := by
  cases hedit with
  | reordered hreordered => cases hreordered <;> exact ⟨nofun, nofun⟩
  | _ => exact ⟨nofun, nofun⟩

theorem optionOf_of_ne_null {α : Type} (decode : Value → Decoded α) {value : Value}
    (hvalue : value ≠ .null) : optionOf decode value = (decode value).map some := by
  cases value <;> first | rfl | exact absurd rfl hvalue

theorem preserves_optionOf {α : Type} {decode : Value → Decoded α} {role : Role}
    (hdecode : Preserves decode (Same role)) : Preserves (optionOf decode) (Same role) := by
  refine preserves_same fun {value value' a} hedit hvalue => ?_
  obtain ⟨hnull, hnull'⟩ := hedit.ne_null
  rw [optionOf_of_ne_null decode hnull, map_ok_iff] at hvalue
  obtain ⟨b, hb, rfl⟩ := hvalue
  rw [optionOf_of_ne_null decode hnull', hdecode (.single hedit) hb]
  rfl

/-! ## Records without a kind -/

theorem contentOf_kept {role : Role} {fields : Fields Role}
    (hfields : ∀ value, HasFields role value fields) {value value' : Value}
    (hedit : Edited role value value') {subject : String} {content : Content}
    (hcontent : contentOf value subject = .ok content) :
    ∃ content', contentOf value' subject = .ok content' ∧
      ContentKept Same fields content content' := by
  cases value with
  | object members =>
      cases hcontent
      obtain ⟨members', rfl, hkept⟩ := hedit.membersKept (hfields _)
      exact ⟨.members members', rfl, hkept⟩
  | array items =>
      cases hcontent
      obtain ⟨items', rfl, hkept⟩ := hedit.itemsKept (hfields _)
      exact ⟨.items items', rfl, hkept⟩
  | _ => cases hcontent

section Nodes

variable {node : Value → Decoded Node} (hnode : Preserves node (Same .node))
include hnode

theorem respects_sequenceRecord : (sequenceRecord node).Respects Same sequenceFields :=
  respects_field (preserves_listOf hnode)

theorem preserves_sequenceOf : Preserves (sequenceOf node) (Same .sequence) := by
  refine preserves_same fun {value value' a} hedit hvalue => ?_
  simp only [sequenceOf, bind_ok_iff] at hvalue ⊢
  obtain ⟨content, hcontent, hread⟩ := hvalue
  obtain ⟨content', hcontent', hkept⟩ := contentOf_kept (fun _ => .sequence) hedit hcontent
  exact ⟨content', hcontent', (respects_sequenceRecord hnode).read hkept hread⟩

theorem respects_blockRecord : (blockRecord node).Respects Same blockFields :=
  (respects_field (preserves_optionOf (preserves_sequenceOf hnode))).and
    (respects_field (preserves_optionOf (preserves_sequenceOf hnode))) (by decide)

theorem blockOfContent_kept {content content' : Content} {block : Block Node}
    (hkept : ContentKept Same blockFields content content')
    (hread : blockOfContent node content = .ok block) :
    blockOfContent node content' = .ok block := by
  simp only [blockOfContent, map_ok_iff] at hread ⊢
  obtain ⟨parts, hparts, hdone⟩ := hread
  exact ⟨parts, (respects_blockRecord hnode).read hkept hparts, hdone⟩

theorem preserves_blockOf : Preserves (blockOf node) (Same .block) := by
  refine preserves_same fun {value value' a} hedit hvalue => ?_
  simp only [blockOf, bind_ok_iff] at hvalue ⊢
  obtain ⟨content, hcontent, hread⟩ := hvalue
  obtain ⟨content', hcontent', hkept⟩ := contentOf_kept (fun _ => .block) hedit hcontent
  exact ⟨content', hcontent', blockOfContent_kept hnode hkept hread⟩

end Nodes

/-! ## Tagged values -/

theorem Edited.tagged {role : Role} {fields : Fields Role} {value value' tag : Value}
    {content : Content} (hfields : HasFields role value (kindField :: fields))
    (hedit : Edited role value value') (htagged : Tagged value tag content) :
    ∃ tag' content', Tagged value' tag' content' ∧ Same .scalar tag tag' ∧
      ContentKept Same fields content content' := by
  cases htagged with
  | @object members tag htag =>
      obtain ⟨members', rfl, hkept⟩ := hedit.membersKept hfields
      obtain ⟨tag', htag', hsame⟩ := (hkept kindField (by simp)).2 tag htag
      refine ⟨tag', .members (others members'), .object htag', hsame, ?_⟩
      intro field hfield
      -- the kind is taken out of the members, which no other field notices
      have hname : field.1 ≠ "kind" := by
        have hnodup := hfields.nodup
        rw [List.map_cons, List.nodup_cons] at hnodup
        intro heq
        apply hnodup.1
        rw [show kindField.1 = field.1 from heq.symm]
        exact List.mem_map_of_mem hfield
      rw [occurrences_others hname, occurrences_others hname]
      exact hkept field (List.mem_cons_of_mem _ hfield)
  | @array tag items =>
      obtain ⟨items', rfl, hkept⟩ := hedit.itemsKept hfields
      cases items' with
      | nil => cases hkept
      | cons tag' items' => exact ⟨tag', .items items', .array, hkept.1, hkept.2⟩

theorem split_kept {κ : Type} {family : Family κ} {role : Role} {fieldsOf : κ → Fields Role}
    (hfields : ∀ {value kind content}, family.split value = .ok (kind, content) →
      HasFields role value (kindField :: fieldsOf kind))
    {value value' : Value} (hedit : Edited role value value') {kind : κ} {content : Content}
    (hsplit : family.split value = .ok (kind, content)) :
    ∃ content', family.split value' = .ok (kind, content') ∧
      ContentKept Same (fieldsOf kind) content content' := by
  obtain ⟨tag, htagged, hkind⟩ := split_eq_ok.mp hsplit
  obtain ⟨tag', content', htagged', hsame, hkept⟩ := hedit.tagged (hfields hsplit) htagged
  exact ⟨content', split_eq_ok.mpr ⟨tag', htagged', preserves_kindOf family hsame hkind⟩, hkept⟩

theorem Record.Respects.map_read {σ α β : Type} {record : Record σ α} {fields : Fields Role}
    (hrecord : record.Respects Same fields) {f : α → β} {subject : String}
    {content content' : Content} {b : β} (hkept : ContentKept Same fields content content')
    (hread : (record.read subject content).map f = .ok b) :
    (record.read subject content').map f = .ok b := by
  obtain ⟨a, ha, hdone⟩ := map_ok_iff.mp hread
  exact map_ok_iff.mpr ⟨a, hrecord.read hkept ha, hdone⟩

theorem map_readNothing_kept {β : Type} {b b' : β} {content content' : Content}
    (hkept : ContentKept Same [] content content')
    (hread : (readNothing content).map (fun () => b) = .ok b') :
    (readNothing content').map (fun () => b) = .ok b' := by
  obtain ⟨_, hnothing, hdone⟩ := map_ok_iff.mp hread
  exact map_ok_iff.mpr ⟨(), readNothing_kept hkept hnothing, hdone⟩

theorem typeOfContent_kept {type : Value → Decoded TypeDescriptor}
    (htype : Preserves type (Same .type)) (kind : TypeKind) {content content' : Content}
    (hkept : ContentKept Same (typeFields kind) content content') {result : TypeDescriptor}
    (hread : typeOfContent type kind content = .ok result) :
    typeOfContent type kind content' = .ok result := by
  cases kind with
  | pointer => exact (respects_field htype).map_read hkept hread
  | functional =>
      exact ((respects_field (preserves_listOf htype)).and (respects_field htype)
        (by decide)).map_read hkept hread
  | _ => exact map_readNothing_kept hkept hread

theorem preserves_typeOf (depth : Nat) : Preserves (typeOf depth) (Same .type) := by
  induction depth with
  | zero =>
      intro value value' a _ hvalue
      cases hvalue
  | succ depth ih =>
      refine preserves_same fun {value value' a} hedit hvalue => ?_
      simp only [typeOf, bind_ok_iff] at hvalue ⊢
      obtain ⟨⟨kind, content⟩, hsplit, hread⟩ := hvalue
      obtain ⟨content', hsplit', hkept⟩ := split_kept .type hedit hsplit
      exact ⟨(kind, content'), hsplit', typeOfContent_kept ih kind hkept hread⟩

theorem nodeOfContent_kept {node : Value → Decoded Node} {type : Value → Decoded TypeDescriptor}
    (hnode : Preserves node (Same .node)) (htype : Preserves type (Same .type)) (kind : Kind)
    {content content' : Content} (hkept : ContentKept Same (nodeFields kind) content content')
    {result : Node} (hread : nodeOfContent node type kind content = .ok result) :
    nodeOfContent node type kind content' = .ok result := by
  cases kind with
  | integer => exact (respects_field preserves_int32Of).map_read hkept hread
  | double => exact (respects_field preserves_doubleOf).map_read hkept hread
  | string => exact (respects_field preserves_textOf).map_read hkept hread
  | nil => exact map_readNothing_kept hkept hread
  | null => exact map_readNothing_kept hkept hread
  | data => exact (respects_field (preserves_listOf preserves_byteOf)).map_read hkept hread
  | unary =>
      exact ((respects_field (preserves_wordOf _)).and (respects_field hnode)
        (by decide)).map_read hkept hread
  | binary =>
      exact ((respects_field (preserves_wordOf _)).and
        ((respects_field hnode).and (respects_field hnode) (by decide))
        (by decide)).map_read hkept hread
  | var => exact (respects_field preserves_textOf).map_read hkept hread
  | index =>
      exact ((respects_field hnode).and (respects_field hnode) (by decide)).map_read hkept hread
  | addressOf => exact (respects_field hnode).map_read hkept hread
  | stackAlloc => exact (respects_field hnode).map_read hkept hread
  | rvalue => exact (respects_field hnode).map_read hkept hread
  | assignment =>
      exact ((respects_field hnode).and (respects_field hnode) (by decide)).map_read hkept hread
  | sequence => exact (respects_sequenceRecord hnode).map_read hkept hread
  | block =>
      obtain ⟨body, hbody, hdone⟩ := map_ok_iff.mp hread
      exact map_ok_iff.mpr ⟨body, blockOfContent_kept hnode hkept hbody, hdone⟩
  | declaration =>
      exact ((respects_field preserves_textOf).and
        ((respects_field (preserves_wordOf _)).and
          ((respects_field (preserves_optionOf htype)).and
            (respects_field (preserves_optionOf hnode)) (by decide))
          (by decide))
        (by decide)).map_read hkept hread
  | functionDefinition =>
      exact ((respects_field (preserves_optionOf htype)).and
        ((respects_field (preserves_optionOf (preserves_sequenceOf hnode))).and
          (respects_field (preserves_blockOf hnode)) (by decide))
        (by decide)).map_read hkept hread
  | functionCall =>
      exact ((respects_field (preserves_optionOf hnode)).and
        (respects_field (preserves_optionOf (preserves_sequenceOf hnode)))
        (by decide)).map_read hkept hread
  | sizeof => exact (respects_field hnode).map_read hkept hread
  | ifThen =>
      exact ((respects_field hnode).and (respects_field hnode) (by decide)).map_read hkept hread
  | ifElse =>
      exact ((respects_field hnode).and
        ((respects_field hnode).and (respects_field hnode) (by decide))
        (by decide)).map_read hkept hread
  | whileLoop =>
      exact ((respects_field hnode).and (respects_field hnode) (by decide)).map_read hkept hread
  | ret => exact (respects_field (preserves_optionOf hnode)).map_read hkept hread
  | stop => exact (respects_field preserves_int32Of).map_read hkept hread
  | next => exact (respects_field preserves_int32Of).map_read hkept hread
  | input => exact map_readNothing_kept hkept hread
  | print => exact (respects_field (preserves_sequenceOf hnode)).map_read hkept hread
  | evaluation => exact (respects_field hnode).map_read hkept hread

/-- An edit of a value that is read as a node does not change the node. -/
theorem preserves_nodeOf (depth : Nat) : Preserves (nodeOf depth) (Same .node) := by
  induction depth with
  | zero =>
      intro value value' a _ hvalue
      cases hvalue
  | succ depth ih =>
      refine preserves_same fun {value value' a} hedit hvalue => ?_
      simp only [nodeOf, bind_ok_iff] at hvalue ⊢
      obtain ⟨⟨kind, content⟩, hsplit, hread⟩ := hvalue
      obtain ⟨content', hsplit', hkept⟩ := split_kept .node hedit hsplit
      exact ⟨(kind, content'), hsplit',
        nodeOfContent_kept ih (preserves_typeOf depth) kind hkept hread⟩

end Interchange
end SyntaxDump

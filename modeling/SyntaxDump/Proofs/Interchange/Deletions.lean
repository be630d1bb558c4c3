import Mathlib.Tactic
import SyntaxDump.Proofs.Interchange.Documents
import SyntaxDump.Proofs.Interchange.RoundTrip
import SyntaxDump.Proofs.Interchange.Slots

/-!
# Documents with a member less

Whatever member is deleted from whatever object of the document of a tree, the
table of members tells what the rest is read as: if the member is required,
nothing, and otherwise the tree with one component made empty or absent.
-/

namespace SyntaxDump
namespace Interchange

open Json (Value)

/-! ## Deletions -/

/-- A tree is written with a member less, and this is what is left of the tree:
nothing, if a required member is gone. -/
inductive Deletes : (role : Role) → role.Tree → Value → Option role.Tree → Prop where
  | kind {role tree} : role.tag tree ≠ [] →
      Deletes role tree (.object (entries (role.members tree))) none
  | member {role tree front member back} : role.members tree = front ++ member :: back →
      Deletes role tree (.object (role.tag tree ++ (entries front ++ entries back))) member.without
  | inside {role tree front member back part value' left} :
      role.members tree = front ++ member :: back → member.part = some part →
      Deletes part.role part.tree value' left →
      Deletes role tree
        (.object (role.tag tree ++ (entries front ++ (member.name, value') :: entries back)))
        (left.map part.replace)
  | item {role front tree back value' left} : Deletes role tree value' left →
      Deletes (.list role) (front ++ tree :: back)
        (.array (front.map role.encode ++ value' :: back.map role.encode))
        (left.map fun tree => front ++ tree :: back)

namespace LosesMember

variable {value value' : Value}

theorem ne_null (hloses : LosesMember value value') : value' ≠ .null := by
  cases hloses <;> exact nofun

theorem depth_le (hloses : LosesMember value value') : value'.depth ≤ value.depth := by
  induction hloses with
  | @here front back member =>
      have hmembers := Value.depth_object_le_iff.mp
        (Nat.le_refl (Value.object (front ++ member :: back)).depth)
      refine Value.depth_object_le_iff.mpr ?_
      simp only [List.forall_mem_append, List.forall_mem_cons] at hmembers ⊢
      exact ⟨hmembers.1, hmembers.2.2⟩
  | @item front back value value' _ ih =>
      have hitems := Value.depth_array_le_iff.mp
        (Nat.le_refl (Value.array (front ++ value :: back)).depth)
      refine Value.depth_array_le_iff.mpr ?_
      simp only [List.forall_mem_append, List.forall_mem_cons] at hitems ⊢
      exact ⟨hitems.1, ih.trans hitems.2.1, hitems.2.2⟩
  | @member front back name value value' _ ih =>
      have hmembers := Value.depth_object_le_iff.mp
        (Nat.le_refl (Value.object (front ++ (name, value) :: back)).depth)
      refine Value.depth_object_le_iff.mpr ?_
      simp only [List.forall_mem_append, List.forall_mem_cons] at hmembers ⊢
      exact ⟨hmembers.1, ih.trans hmembers.2.1, hmembers.2.2⟩

theorem writable (hloses : LosesMember value value') (hvalue : value.Writable) :
    value'.Writable := by
  induction hloses with
  | here =>
      simp only [Value.Writable, Value.writableMembers_iff, List.forall_mem_append,
        List.forall_mem_cons] at hvalue ⊢
      exact ⟨hvalue.1, hvalue.2.2⟩
  | item _ ih =>
      simp only [Value.Writable, Value.writableItems_iff, List.forall_mem_append,
        List.forall_mem_cons] at hvalue ⊢
      exact ⟨hvalue.1, ih hvalue.2.1, hvalue.2.2⟩
  | member _ ih =>
      simp only [Value.Writable, Value.writableMembers_iff, List.forall_mem_append,
        List.forall_mem_cons] at hvalue ⊢
      exact ⟨hvalue.1, ih hvalue.2.1, hvalue.2.2⟩

theorem mapFloats_eq_self {f : Binary64 → Binary64} (hloses : LosesMember value value')
    (hvalue : value.mapFloats f = value) : value'.mapFloats f = value' := by
  induction hloses with
  | here =>
      simp only [Value.mapFloats_object_eq_self, List.forall_mem_append,
        List.forall_mem_cons] at hvalue ⊢
      exact ⟨hvalue.1, hvalue.2.2⟩
  | item _ ih =>
      simp only [Value.mapFloats_array_eq_self, List.forall_mem_append,
        List.forall_mem_cons] at hvalue ⊢
      exact ⟨hvalue.1, ih hvalue.2.1, hvalue.2.2⟩
  | member _ ih =>
      simp only [Value.mapFloats_object_eq_self, List.forall_mem_append,
        List.forall_mem_cons] at hvalue ⊢
      exact ⟨hvalue.1, ih hvalue.2.1, hvalue.2.2⟩

end LosesMember

/-! ## Every deletion is told -/

theorem exists_split_of_entries {ω : Type} {members : List (Member ω)}
    {front back : List (String × Value)} {entry : String × Value}
    (hentries : front ++ entry :: back = entries members) :
    ∃ front' member back', members = front' ++ member :: back' ∧ front = entries front' ∧
      entry = member.entry ∧ back = entries back' := by
  obtain ⟨front', rest, rfl, rfl, hrest⟩ := List.map_eq_append_iff.mp hentries.symm
  obtain ⟨member, back', rfl, rfl, rfl⟩ := List.map_eq_cons_iff.mp hrest
  exact ⟨front', member, back', rfl, rfl, rfl, rfl⟩

/-- A member of the object of a tree is its kind or one of the table. -/
theorem exists_split_of_encode {role : Role} {tree : role.Tree}
    {front back : List (String × Value)} {entry : String × Value}
    (hencode : role.encode tree = .object (front ++ entry :: back)) :
    (role.tag tree = [entry] ∧ front = [] ∧ back = entries (role.members tree)) ∨
      ∃ front' member back', role.members tree = front' ++ member :: back' ∧
        front = role.tag tree ++ entries front' ∧ entry = member.entry ∧ back = entries back' := by
  have hmembers := Role.encode_eq_object hencode
  rcases role.tag_cases tree with htag | ⟨word, htag⟩
  · rw [htag, List.nil_append] at hmembers
    obtain ⟨front', member, back', hsplit, rfl, rfl, rfl⟩ := exists_split_of_entries hmembers
    exact .inr ⟨front', member, back', hsplit, by rw [htag]; rfl, rfl, rfl⟩
  · rw [htag] at hmembers
    cases front with
    | nil =>
        obtain ⟨rfl, rfl⟩ := List.cons.inj hmembers
        exact .inl ⟨htag, rfl, rfl⟩
    | cons first front =>
        obtain ⟨rfl, hrest⟩ := List.cons.inj hmembers
        obtain ⟨front', member, back', hsplit, rfl, rfl, rfl⟩ := exists_split_of_entries hrest
        exact .inr ⟨front', member, back', hsplit, by rw [htag]; rfl, rfl, rfl⟩

theorem exists_deletes {value value' : Value} (hloses : LosesMember value value') :
    ∀ {role : Role} {tree : role.Tree}, role.encode tree = value →
      ∃ left, Deletes role tree value' left := by
  induction hloses with
  | here =>
      intro role tree hencode
      rcases exists_split_of_encode hencode with ⟨htag, rfl, rfl⟩ |
        ⟨front', member, back', hsplit, rfl, rfl, rfl⟩
      · exact ⟨none, .kind (by simp [htag])⟩
      · rw [List.append_assoc]
        exact ⟨member.without, .member hsplit⟩
  | @item front back value value' hvalue ih =>
      intro role tree hencode
      rcases role.encode_cases tree with hobject | ⟨item, rfl⟩
      · rw [hobject] at hencode
        cases hencode
      · obtain ⟨front', rest, rfl, rfl, hrest⟩ :=
          List.map_eq_append_iff.mp (Value.array.inj hencode)
        obtain ⟨tree, back', rfl, hitem, rfl⟩ := List.map_eq_cons_iff.mp hrest
        obtain ⟨left, hleft⟩ := ih hitem
        exact ⟨_, .item hleft⟩
  | @member front back name value value' hvalue ih =>
      intro role tree hencode
      rcases exists_split_of_encode hencode with ⟨htag, rfl, rfl⟩ |
        ⟨front', member, back', hsplit, rfl, hentry, rfl⟩
      · rcases role.tag_cases tree with hnone | ⟨word, hword⟩
        · simp [hnone] at htag
        · obtain ⟨-, rfl⟩ : "kind" = name ∧ .string word = value := by simpa [hword] using htag
          cases hvalue
      · obtain ⟨rfl, rfl⟩ := Prod.mk.inj hentry
        have hmember : member ∈ role.members tree := by simp [hsplit]
        cases hpart : member.part with
        | none => exact absurd hvalue (((role.fits_members tree member hmember).flat hpart _))
        | some part =>
            obtain ⟨left, hleft⟩ :=
              ih ((role.fits_members tree member hmember).value part hpart).symm
            rw [List.append_assoc]
            exact ⟨_, .inside hsplit hpart hleft⟩

/-- Only one member is deleted. -/
theorem Deletes.losesMember {role : Role} {tree : role.Tree} {value' : Value}
    {left : Option role.Tree} (hdeletes : Deletes role tree value' left) :
    LosesMember (role.encode tree) value' := by
  induction hdeletes with
  | @kind role tree htag =>
      rw [role.encode_eq_of_tag_ne_nil htag]
      obtain ⟨word, htag⟩ := (role.tag_cases tree).resolve_left htag
      rw [htag]
      exact @LosesMember.here [] _ _
  | @member role tree front member back hsplit =>
      rw [role.encode_eq_of_mem (by rw [hsplit]; simp : member ∈ _), hsplit, entries_append,
        ← List.append_assoc, ← List.append_assoc]
      exact .here
  | @inside role tree front member back part value' left hsplit hpart _ ih =>
      have hmember : member ∈ role.members tree := by simp [hsplit]
      rw [role.encode_eq_of_mem hmember, hsplit, entries_append, ← List.append_assoc,
        ← List.append_assoc]
      rw [← (role.fits_members tree member hmember).value part hpart] at ih
      exact .member ih
  | @item role front tree back value' left _ ih =>
      have hencode : (Role.list role).encode (front ++ tree :: back) =
          .array (front.map role.encode ++ role.encode tree :: back.map role.encode) := by
        simp [Role.encode]
      rw [hencode]
      exact .item ih

/-! ## Reading what is left -/

theorem lacksKind_iff {members : List (String × Value)} :
    LacksKind members ↔ occurrences "kind" members = [] := by
  simp [LacksKind, occurrences, List.filterMap_eq_nil_iff]

theorem Member.Governs.congr {ω : Type} {depth : Nat} {member : Member ω}
    {read read' : List (String × Value) → Option ω} {members : List (String × Value)}
    (hgoverns : member.Governs depth read members) (hname : member.name ≠ "kind")
    (hmembers : LacksKind members)
    (hread : ∀ {members'}, LacksKind members' → read' members' = read members') :
    member.Governs depth read' members := by
  have hlacks {members' : List (String × Value)} (hsame : SameBeside member.name members members') :
      LacksKind members' := by
    rw [lacksKind_iff, hsame "kind" hname.symm]
    exact lacksKind_iff.mp hmembers
  constructor
  · intro members' hsame hnone
    rw [hread (hlacks hsame)]
    exact hgoverns.without hsame hnone
  · intro part hpart members' value hsame hnull hone
    rw [hread (hlacks hsame)]
    exact hgoverns.replace part hpart hsame hnull hone

section

variable {role : Role} {tree : role.Tree} {depth : Nat}

theorem Role.lacksKind_entries (role : Role) (tree : role.Tree) :
    LacksKind (entries (role.members tree)) := by
  intro entry hentry
  obtain ⟨member, hmember, rfl⟩ := List.mem_map.mp hentry
  exact (role.fits_members tree member hmember).name

theorem map_id_eq {α : Type} (decoded : Decoded α) : decoded.map id = decoded := by
  cases decoded <;> rfl

theorem Role.governs_of_content {inner : Nat}
    {content : List (String × Value) → Decoded role.Tree}
    (hencode : role.encode tree = .object (role.tag tree ++ entries (role.members tree)))
    (hdecode : ∀ {members}, LacksKind members →
      role.decode depth (.object (role.tag tree ++ members)) = content members)
    (hcontent : ∀ {members}, content members = .ok tree → ∀ member ∈ role.members tree,
      member.Governs inner (fun members => (content members).toOption) members)
    (hread : role.decode depth (role.encode tree) = .ok tree) :
    ∀ member ∈ role.members tree, member.Governs inner
      (fun members => (role.decode depth (.object (role.tag tree ++ members))).toOption)
      (entries (role.members tree)) := by
  have hlacks := role.lacksKind_entries tree
  rw [hencode, hdecode hlacks] at hread
  intro member hmember
  apply (hcontent hread member hmember).congr (role.fits_members tree member hmember).name hlacks
  intro members' hmembers'
  rw [hdecode hmembers']

/-- A tree that is read back is governed by its members, one by one. -/
theorem Role.governs (hread : role.decode depth (role.encode tree) = .ok tree) :
    ∃ inner, ∀ member ∈ role.members tree, member.Governs inner
      (fun members => (role.decode depth (.object (role.tag tree ++ members))).toOption)
      (entries (role.members tree)) := by
  cases role with
  | scalar => exact tree.elim
  | list item => exact ⟨depth, nofun⟩
  | sequence =>
      have hdecode {members : List (String × Value)} (_ : LacksKind members) :
          sequenceOf (nodeOf depth) (.object members) =
            ((sequenceRecord (nodeOf depth)).read "struct Sequence" (.members members)).map id := by
        rw [map_id_eq]
        rfl
      have hencode : Role.sequence.encode tree = .object (entries (sequenceMembersTo tree id)) :=
        congrArg Value.object (entries_sequenceMembersTo tree id).symm
      exact ⟨depth, Role.governs_of_content hencode hdecode
        (governs_sequenceMembersTo fun _ => id) hread⟩
  | block =>
      have hdecode {members : List (String × Value)} (_ : LacksKind members) :
          blockOf (nodeOf depth) (.object members) =
            (blockOfContent (nodeOf depth) (.members members)).map id := by
        rw [map_id_eq]
        rfl
      have hencode : Role.block.encode tree = .object (entries (blockMembersTo tree id)) :=
        congrArg Value.object (entries_blockMembersTo tree id).symm
      exact ⟨depth, Role.governs_of_content hencode hdecode
        (governs_blockMembersTo fun _ => id) hread⟩
  | type =>
      cases depth with
      | zero => cases hread
      | succ inner =>
          have hdecode {members : List (String × Value)} (hmembers : LacksKind members) :
              typeOf (inner + 1) (tagged (kindOfType tree).word members) =
                typeOfContent (typeOf inner) (kindOfType tree) (.members members) := by
            have hsplit : typeFamily.split (tagged (kindOfType tree).word members) =
                .ok (kindOfType tree, .members members) :=
              split_tagged typeFamily (TypeKind.ofWord?_word _) hmembers
            rw [typeOf, hsplit]
            rfl
          exact ⟨inner, Role.governs_of_content (encodeType_eq_members tree) hdecode
            governs_typeMembers hread⟩
  | node =>
      cases depth with
      | zero => cases hread
      | succ inner =>
          have hdecode {members : List (String × Value)} (hmembers : LacksKind members) :
              nodeOf (inner + 1) (tagged tree.kind.word members) =
                nodeOfContent (nodeOf inner) (typeOf inner) tree.kind (.members members) := by
            have hsplit : nodeFamily.split (tagged tree.kind.word members) =
                .ok (tree.kind, .members members) :=
              split_tagged nodeFamily (Kind.ofWord?_word _) hmembers
            rw [nodeOf, hsplit]
            rfl
          exact ⟨inner, Role.governs_of_content (encode_eq_members tree) hdecode
            governs_nodeMembers hread⟩

theorem occurrences_entries_eq_nil {ω : Type} {name : String} {members : List (Member ω)}
    (hname : name ∉ members.map Member.name) : occurrences name (entries members) = [] := by
  simp only [occurrences, List.filterMap_eq_nil_iff]
  intro entry hentry
  obtain ⟨member, hmember, rfl⟩ := List.mem_map.mp hentry
  apply if_neg
  rintro rfl
  exact hname (List.mem_map_of_mem hmember)

/-- The name of a member stands for nothing else. -/
theorem occurrences_beside {ω : Type} {front back : List (Member ω)} {member : Member ω}
    (hnodup : ((front ++ member :: back).map Member.name).Nodup) :
    occurrences member.name (entries front) = [] ∧ occurrences member.name (entries back) = [] := by
  rw [List.map_append, List.map_cons, List.nodup_middle, List.nodup_cons, List.mem_append,
    not_or] at hnodup
  exact ⟨occurrences_entries_eq_nil hnodup.1.1, occurrences_entries_eq_nil hnodup.1.2⟩

theorem sameBeside_replace {name : String} (front back : List (String × Value))
    (value value' : Value) :
    SameBeside name (front ++ (name, value) :: back) (front ++ (name, value') :: back) := by
  intro other hother
  rw [occurrences_append, occurrences_append, occurrences_cons_of_ne hother.symm,
    occurrences_cons_of_ne hother.symm]

theorem sameBeside_delete {name : String} (front back : List (String × Value)) (value : Value) :
    SameBeside name (front ++ (name, value) :: back) (front ++ back) := by
  intro other hother
  rw [occurrences_append, occurrences_append, occurrences_cons_of_ne hother.symm]

theorem decode_without_kind (htag : role.tag tree ≠ []) {members : List (String × Value)}
    (hmembers : LacksKind members) : (role.decode depth (.object members)).toOption = none := by
  have hsplit {κ : Type} (family : Family κ) :
      family.split (.object members) = .error (.missingField "kind") := by
    rw [Family.split, splitMembers_of_lacksKind family none hmembers]
    rfl
  cases role with
  | type =>
      cases depth with
      | zero => rfl
      | succ depth =>
          rw [Role.decode, typeOf, hsplit]
          rfl
  | node =>
      cases depth with
      | zero => rfl
      | succ depth =>
          rw [Role.decode, nodeOf, hsplit]
          rfl
  | _ => exact absurd rfl htag

theorem toOption_decodeAll_cons {α : Type} (decode : Value → Decoded α) (item : Value)
    (rest : List Value) :
    (decodeAll decode (item :: rest)).toOption =
      (decode item).toOption.bind fun a => (decodeAll decode rest).toOption.map (a :: ·) := by
  rw [decodeAll]
  cases decode item with
  | error error => rfl
  | ok a => cases decodeAll decode rest <;> rfl

/-- A list that is read back is read item by item. -/
theorem decodeAll_replaced {α : Type} {decode : Value → Decoded α} {encode : α → Value}
    {front back : List α} {a : α}
    (hread : decodeAll decode ((front ++ a :: back).map encode) = .ok (front ++ a :: back)) :
    decode (encode a) = .ok a ∧ ∀ value,
      (decodeAll decode (front.map encode ++ value :: back.map encode)).toOption =
        (decode value).toOption.map fun b => front ++ b :: back := by
  induction front with
  | nil =>
      simp only [List.nil_append, List.map_cons, decodeAll, bind_ok_iff] at hread
      obtain ⟨b, hb, rest, hrest, hdone⟩ := hread
      cases hdone
      refine ⟨hb, fun value => ?_⟩
      rw [List.map_nil, List.nil_append, toOption_decodeAll_cons, hrest]
      cases decode value <;> rfl
  | cons first front ih =>
      simp only [List.cons_append, List.map_cons, decodeAll, bind_ok_iff] at hread
      obtain ⟨b, hb, rest, hrest, hdone⟩ := hread
      cases hdone
      obtain ⟨ha, hreplaced⟩ := ih hrest
      refine ⟨ha, fun value => ?_⟩
      rw [List.map_cons, List.cons_append, toOption_decodeAll_cons, hb, hreplaced]
      cases decode value <;> rfl

theorem decode_of_deletes {value' : Value} {left : Option role.Tree}
    (hdeletes : Deletes role tree value' left)
    (hread : role.decode depth (role.encode tree) = .ok tree) :
    (role.decode depth value').toOption = left := by
  induction hdeletes generalizing depth with
  | @kind role tree htag => exact decode_without_kind htag (role.lacksKind_entries tree)
  | @member role tree front member back hsplit =>
      have hmember : member ∈ role.members tree := by simp [hsplit]
      obtain ⟨inner, hgoverns⟩ := Role.governs hread
      have hnodup := role.nodup_members tree
      rw [hsplit] at hnodup
      obtain ⟨hfront, hback⟩ := occurrences_beside hnodup
      apply (hgoverns member hmember).without
      · rw [hsplit, entries_append]
        exact sameBeside_delete _ _ _
      · rw [occurrences_append, hfront, hback]
        rfl
  | @inside role tree front member back part value' left hsplit hpart hinner ih =>
      have hmember : member ∈ role.members tree := by simp [hsplit]
      obtain ⟨inner, hgoverns⟩ := Role.governs hread
      have hfits := role.fits_members tree member hmember
      have hnodup := role.nodup_members tree
      rw [hsplit] at hnodup
      obtain ⟨hfront, hback⟩ := occurrences_beside hnodup
      have hreplace {value : Value} (hvalue : value ≠ .null) :
          (role.decode depth (.object (role.tag tree ++
            (entries front ++ (member.name, value) :: entries back)))).toOption =
              (part.role.decode inner value).toOption.map part.replace := by
        apply (hgoverns member hmember).replace part hpart _ hvalue
        · rw [occurrences_append, hfront, occurrences_cons_self, hback]
          rfl
        · rw [hsplit, entries_append]
          exact sameBeside_replace _ _ _ _
      -- the part itself is read back, since the whole is
      have hpartread : part.role.decode inner (part.role.encode part.tree) = .ok part.tree := by
        have hwhole := hreplace (part.role.encode_ne_null part.tree)
        have hentry : (member.name, part.role.encode part.tree) = member.entry := by
          rw [← hfits.value part hpart]
          rfl
        rw [hentry, ← entries_cons, ← entries_append, ← hsplit, ← role.encode_eq_of_mem hmember,
          hread] at hwhole
        obtain ⟨found, hfound, hsame⟩ := Option.map_eq_some_iff.mp hwhole.symm
        obtain rfl := (hfits.same part hpart found).mp hsame
        exact toOption_eq_some.mp hfound
      rw [hreplace hinner.losesMember.ne_null, ih hpartread]
  | @item role front tree back value' left _ ih =>
      obtain ⟨htree, hreplaced⟩ := decodeAll_replaced hread
      rw [← ih htree]
      exact hreplaced value'

end

end Interchange
end SyntaxDump

import Mathlib.Tactic
import SyntaxDump.Proofs.Interchange.Deletions
import SyntaxDump.Proofs.Interchange.Documents
import SyntaxDump.Proofs.Interchange.RoundTrip

/-!
# Incomplete documents

The document of a tree is taken and one member deleted, anywhere in it.  Since
the document is read back, its doubles are those of the tree, and what is left
is read as the value that is left.
-/

namespace SyntaxDump
namespace Interchange

open Json (Value)

/-! ## Trees whose doubles are kept -/

section

variable {f : Binary64 → Binary64}

theorem mapFloats_doubleValue {x : Binary64} (hx : restored f x = x) :
    (doubleValue x).mapFloats f = doubleValue x := by
  unfold doubleValue
  unfold restored at hx
  split_ifs at hx ⊢ with hfinite hnan hnegative
  · rw [Value.mapFloats, hx]
  · exact mapFloats_string f "nan"
  · exact mapFloats_string f "-inf"
  · exact mapFloats_string f "inf"

/-- The doubles of the value are the doubles of the node. -/
def KeepsFloats (f : Binary64 → Binary64) (node : Node) : Prop :=
  node.mapDoubles (restored f) = node → (encode node).mapFloats f = encode node

theorem mapFloats_encodeAll {nodes : List Node} (hnodes : ∀ node ∈ nodes, KeepsFloats f node)
    (hkept : Node.mapDoublesAll (restored f) nodes = nodes) :
    (Value.array (encodeAll nodes)).mapFloats f = .array (encodeAll nodes) := by
  rw [Node.mapDoublesAll_eq_map] at hkept
  nth_rewrite 2 [← List.map_id nodes] at hkept
  rw [List.map_inj_left] at hkept
  rw [encodeAll_eq_map, Value.mapFloats_array_eq_self, List.forall_mem_map]
  exact fun node hnode => hnodes node hnode (hkept node hnode)

theorem mapFloats_sequenceValue {nodes : List Node} (hnodes : ∀ node ∈ nodes, KeepsFloats f node)
    (hkept : Node.mapDoublesAll (restored f) nodes = nodes) :
    (sequenceValue (encodeAll nodes)).mapFloats f = sequenceValue (encodeAll nodes) := by
  rw [sequenceValue, Value.mapFloats_object_eq_self]
  simpa using mapFloats_encodeAll hnodes hkept

theorem mapFloats_encodeBlock {declarations instructions : Option (List Node)}
    (hdeclarations : ∀ nodes ∈ declarations, ∀ node ∈ nodes, KeepsFloats f node)
    (hinstructions : ∀ nodes ∈ instructions, ∀ node ∈ nodes, KeepsFloats f node)
    (hkept : Node.mapDoublesBlock (restored f) ⟨declarations, instructions⟩ =
      ⟨declarations, instructions⟩) :
    ∀ member ∈ encodeBlock ⟨declarations, instructions⟩, member.2.mapFloats f = member.2 := by
  cases declarations <;> cases instructions <;>
    simp_all [Node.mapDoublesBlock, Node.mapDoublesSequence?, encodeBlock, encodeSequence?, member?,
      mapFloats_sequenceValue]

section

attribute [local simp] KeepsFloats Node.mapDoubles Node.mapDoublesOption Node.mapDoublesSequence?
  encode encodeOption encodeSequence? object tagged member? Value.mapFloats_object_eq_self

theorem keepsFloats (node : Node) : KeepsFloats f node := by
  induction node using Node.nestedInduction with
  | double value =>
      intro hkept
      have hvalue := mapFloats_doubleValue (Node.double.inj hkept)
      simpa using hvalue
  | data bytes =>
      have hbytes : (Value.array (bytes.map fun byte => .integer byte.toNat)).mapFloats f =
          .array (bytes.map fun byte => .integer byte.toNat) := by
        rw [Value.mapFloats_array_eq_self, List.forall_mem_map]
        exact fun byte _ => rfl
      simp [hbytes]
  | sequence nodes ih =>
      intro hkept
      have hnodes := mapFloats_encodeAll ih (Node.sequence.inj hkept)
      simpa using hnodes
  | block declarations instructions ihdeclarations ihinstructions =>
      intro hkept
      have hbody := mapFloats_encodeBlock ihdeclarations ihinstructions (Node.block.inj hkept)
      simpa using hbody
  | declaration identifier qualifier type initializer ih =>
      intro hkept
      cases type <;> cases initializer <;> simp_all
  | functionDefinition type arguments declarations instructions iharguments ihdeclarations
      ihinstructions =>
      intro hkept
      obtain ⟨-, harguments, hbody⟩ := Node.functionDefinition.inj hkept
      have hblock := mapFloats_encodeBlock ihdeclarations ihinstructions hbody
      cases arguments with
      | none => cases type <;> simpa using hblock
      | some nodes =>
          have hnodes :=
            mapFloats_sequenceValue (iharguments nodes rfl) (Option.some.inj harguments)
          cases type <;> simpa [hnodes] using hblock
  | functionCall identifier arguments ihidentifier iharguments =>
      intro hkept
      obtain ⟨hidentifier, harguments⟩ := Node.functionCall.inj hkept
      cases arguments with
      | none => cases identifier <;> simp_all
      | some nodes =>
          have hnodes :=
            mapFloats_sequenceValue (iharguments nodes rfl) (Option.some.inj harguments)
          cases identifier <;> simp_all
  | ret value ih =>
      intro hkept
      cases value <;> simp_all
  | print arguments ih =>
      intro hkept
      have hnodes := mapFloats_sequenceValue ih (Node.print.inj hkept)
      simpa using hnodes
  | _ => simp_all

end

end

/-! ## Values and their texts -/

theorem spellsDocument_text (style : Json.Style) {value : Value} (hvalue : value.Writable) :
    Json.SpellsDocument (value.text style) (value.mapFloats Json.rereadFloat) := by
  have hread := (Json.readValue_writeOnto style hvalue value.depth 0 Json.endsNumber_nil).1 le_rfl
  have htext : (value.text style).toList = Json.writeOnto style value 0 [] := String.toList_ofList
  rw [← htext] at hread
  exact Json.spellsDocument_of_readValue hread Json.blanks_nil

/-- A kind at the root of a value is a string, if there is one. -/
def HasRootWord (value : Value) : Prop :=
  ∃ members, value = .object members ∧
    ∀ tag, ("kind", tag) ∈ members → ∃ word, tag = .string word

theorem hasRootWord_encode (node : Node) : HasRootWord (encode node) := by
  refine ⟨_, encode_eq_object node, ?_⟩
  intro tag htag
  rcases List.mem_cons.mp htag with heq | hmem
  · exact ⟨node.kind.word, congrArg Prod.snd heq⟩
  · exact absurd rfl (lacksKind_parts node _ hmem)

theorem LosesMember.hasRootWord {value value' : Value} (hloses : LosesMember value value')
    (hvalue : HasRootWord value) : HasRootWord value' := by
  obtain ⟨members, rfl, hwords⟩ := hvalue
  cases hloses with
  | @here front back member =>
      refine ⟨_, rfl, fun tag htag => hwords tag ?_⟩
      rcases List.mem_append.mp htag with hfront | hback
      · exact List.mem_append_left _ hfront
      · exact List.mem_append_right _ (List.mem_cons_of_mem _ hback)
  | @member front back name value value' hinner =>
      refine ⟨_, rfl, fun tag htag => ?_⟩
      rcases List.mem_append.mp htag with hfront | hrest
      · exact hwords tag (List.mem_append_left _ hfront)
      · rcases List.mem_cons.mp hrest with heq | hback
        -- a string has no members to lose
        · obtain ⟨rfl, rfl⟩ := Prod.mk.inj heq
          obtain ⟨word, rfl⟩ := hwords value (by simp)
          cases hinner
        · exact hwords tag (List.mem_append_right _ (List.mem_cons_of_mem _ hback))

theorem HasRootWord.exists_word {value tag : Value} {content : Content}
    (hvalue : HasRootWord value) (htagged : Tagged value tag content) :
    ∃ word, tag = .string word := by
  obtain ⟨members, rfl, hwords⟩ := hvalue
  cases htagged with
  | object htag =>
      have hmem : tag ∈ occurrences "kind" members := by simp [htag]
      obtain ⟨⟨name, found⟩, hmember, hfound⟩ := List.mem_filterMap.mp hmem
      split_ifs at hfound with hname
      obtain rfl := Option.some.inj hfound
      exact hwords found (by simpa [← show name = "kind" from hname] using hmember)

theorem read_text_eq_ok {style : Json.Style} {value : Value} (hvalue : HasRootWord value)
    (hwritable : value.Writable) (hfloats : value.mapFloats Json.rereadFloat = value)
    (hdepth : value.depth ≤ Json.maxDepth) {root : Node} :
    read (value.text style) = .ok root ↔ nodeOf (Json.maxDepth + 1) value = .ok root := by
  have htext := spellsDocument_text style hwritable
  rw [hfloats] at htext
  rw [read_eq_ok_of_spells htext hdepth, ← decodesTo_iff_of_word hvalue.exists_word]

end Interchange

open Interchange (encode LosesMember Deletes)

/-- A text is read as the tree that is left, or is no document any more. -/
def ReadsAs (source : String) : Option Node → Prop
  | none => ∃ error, parseJson source = .error (.unreadable error)
  | some root => parseJson source = .ok root

theorem readsAs_of_forall {source : String} {left : Option Node}
    (hleft : ∀ root, Interchange.read source = .ok root ↔ left = some root) :
    ReadsAs source left := by
  rw [ReadsAs.eq_def, parseJson]
  cases left with
  | some root =>
      rw [(hleft root).mpr rfl]
      rfl
  | none =>
      cases hread : Interchange.read source with
      | error error => exact ⟨error, rfl⟩
      | ok root => cases (hleft root).mp hread

/-- The document of a tree that is read back may lose one member of any of its
objects.  What is left is read as the tree with one part made empty or absent,
if that member is optional, and as nothing at all if it is required. -/
theorem parseJson_without_member {root : Node}
    (hroot : parseJson (Interchange.write .compact root) = .ok root) :
    (∀ value, LosesMember (encode root) value ↔ ∃ left, Deletes .node root value left) ∧
    ∀ value left, Deletes .node root value left → ReadsAs (value.text .compact) left := by
  constructor
  · intro value
    constructor
    · exact fun hloses => Interchange.exists_deletes hloses rfl
    · exact fun ⟨left, hdeletes⟩ => hdeletes.losesMember
  · intro value left hdeletes
    have hloses := hdeletes.losesMember
    have hread : Interchange.read (Interchange.write .compact root) = .ok root := by
      rwa [parseJson, mapError_ok_iff] at hroot
    have hdepth : (encode root).depth ≤ Json.maxDepth := by
      by_contra hdeep
      obtain ⟨error, herror⟩ := (Interchange.read_write .compact root).2 (Nat.lt_of_not_le hdeep)
      rw [herror] at hread
      cases hread
    have hfloats : (encode root).mapFloats Json.rereadFloat = encode root := by
      have hwritten := (Interchange.read_write .compact root).1 hdepth
      rw [hread] at hwritten
      exact Interchange.keepsFloats root (Except.ok.inj hwritten).symm
    have hword := Interchange.hasRootWord_encode root
    have hwritable := Interchange.writable_encode root
    have hwhole := (Interchange.read_text_eq_ok hword hwritable hfloats hdepth).mp hread
    apply readsAs_of_forall
    intro root'
    rw [Interchange.read_text_eq_ok (hloses.hasRootWord hword) (hloses.writable hwritable)
      (hloses.mapFloats_eq_self hfloats) (hloses.depth_le.trans hdepth), ← toOption_eq_some]
    have hdecode : (Interchange.nodeOf (Json.maxDepth + 1) value).toOption = left :=
      Interchange.decode_of_deletes hdeletes hwhole
    rw [hdecode]

/-- The value may be missing from a return, but not from an integer. -/
theorem parseJson_without_member_value :
    parseJson "\x7b\"kind\":\"return\",\"value\":\x7b\"kind\":\"integer\",\"value\":7\x7d\x7d" =
        .ok (.ret (some (.integer 7))) ∧
      parseJson "\x7b\"kind\":\"return\"\x7d" = .ok (.ret none) ∧
      ∃ error, parseJson "\x7b\"kind\":\"return\",\"value\":\x7b\"kind\":\"integer\"\x7d\x7d" =
        .error (.unreadable error) := by
  have hwrite : Interchange.write .compact (.ret (some (.integer 7))) =
      "\x7b\"kind\":\"return\",\"value\":\x7b\"kind\":\"integer\",\"value\":7\x7d\x7d" := by
    cbv
  have hroot : parseJson (Interchange.write .compact (.ret (some (.integer 7)))) =
      .ok (.ret (some (.integer 7))) := by
    rw [hwrite]
    cbv
  obtain ⟨-, hreads⟩ := parseJson_without_member hroot
  have hinteger : Deletes .node (.integer 7) (.object [("kind", .string "integer")]) none :=
    @Deletes.member .node (.integer 7) [] _ [] rfl
  have hinner : Deletes .node (.ret (some (.integer 7)))
      (.object [("kind", .string "return"), ("value", .object [("kind", .string "integer")])])
      none :=
    @Deletes.inside .node (.ret (some (.integer 7))) [] _ [] _ _ _ rfl rfl hinteger
  have houter : Deletes .node (.ret (some (.integer 7))) (.object [("kind", .string "return")])
      (some (.ret none)) :=
    @Deletes.member .node (.ret (some (.integer 7))) [] _ [] rfl
  have hleft : Json.Value.text .compact (.object [("kind", .string "return")]) =
      "\x7b\"kind\":\"return\"\x7d" := by cbv
  have hrest : Json.Value.text .compact (.object [("kind", .string "return"),
      ("value", .object [("kind", .string "integer")])]) =
        "\x7b\"kind\":\"return\",\"value\":\x7b\"kind\":\"integer\"\x7d\x7d" := by cbv
  have hwithout := hreads _ _ houter
  have hbroken := hreads _ _ hinner
  rw [hleft] at hwithout
  rw [hrest] at hbroken
  rw [hwrite] at hroot
  exact ⟨hroot, hwithout, hbroken⟩

end SyntaxDump

import SyntaxDump.Interchange.Document
import SyntaxDump.Proofs.Binary64.Rounding
import SyntaxDump.Proofs.Json.Value
import SyntaxDump.Proofs.Syntax.Tree

/-!
# Decoding undoes encoding

The value of a tree is decoded to that tree, as long as the bound of the
decoder is not below the nesting of the value.  Doubles may have been replaced
on the way, by any function; what is then decoded is the tree with the doubles
replaced.
-/

namespace SyntaxDump
namespace Interchange

open Json (Value)

/-! ## Scalars -/

@[simp] theorem int32Of_intValue (i : Int32) : int32Of (intValue i) = .ok i := by
  have hrange : -(natPow 2 31 : ℤ) ≤ i.toInt ∧ i.toInt < natPow 2 31 :=
    ⟨i.le_toInt, i.toInt_lt⟩
  simp only [intValue, int32Of, if_pos hrange, Int32.ofInt_toInt]

@[simp] theorem byteOf_toNat (byte : UInt8) : byteOf (.integer byte.toNat) = .ok byte := by
  have hrange : (0 : ℤ) ≤ byte.toNat ∧ (byte.toNat : ℤ) < natPow 2 8 :=
    ⟨Int.natCast_nonneg _, Int.ofNat_lt.mpr byte.toNat_lt⟩
  simp only [byteOf, if_pos hrange, Int.toNat_natCast, UInt8.ofNat_toNat]

@[simp] theorem unaryOperatorOf_word (op : UnaryOperator) :
    unaryOperatorOf (.string op.word) = .ok op := by
  simp only [unaryOperatorOf, wordOf, choiceOf, UnaryOperator.ofWord?_word]

@[simp] theorem binaryOperatorOf_word (op : BinaryOperator) :
    binaryOperatorOf (.string op.word) = .ok op := by
  simp only [binaryOperatorOf, wordOf, choiceOf, BinaryOperator.ofWord?_word]

@[simp] theorem qualifierOf_word (qualifier : Qualifier) :
    qualifierOf (.string qualifier.word) = .ok qualifier := by
  simp only [qualifierOf, wordOf, Qualifier.ofWord_word]

/-- What is decoded for a double whose number has been replaced.  Infinities
keep their sign, all values that are no numbers become one. -/
def restored (f : Binary64 → Binary64) (x : Binary64) : Binary64 :=
  if x.isFinite then f x else if x.isNaN then Binary64.nan else x

theorem eq_signed_infinity {x : Binary64} (hfinite : x.isFinite = false)
    (hnan : x.isNaN = false) :
    x = if x.isNegative then Binary64.infinity.neg else Binary64.infinity := by
  have hexponent : x.exponentField = 2047 := by simpa [Binary64.isFinite] using hfinite
  have hfraction : x.fractionField = 0 := by simpa [Binary64.isNaN, hfinite] using hnan
  have hlt : x.word < 2 ^ 64 := x.bits.toNat_lt
  unfold Binary64.exponentField natPow at hexponent
  unfold Binary64.fractionField natPow at hfraction
  by_cases hnegative : 2 ^ 63 ≤ x.word
  · have hword : x.word = Binary64.infinity.neg.word := by
      rw [show Binary64.infinity.neg.word = 2 ^ 63 + 2047 * 2 ^ 52 by decide]
      omega
    rw [if_pos (by simpa [Binary64.isNegative] using hnegative)]
    exact Binary64.eq_of_word_eq hword
  · have hword : x.word = Binary64.infinity.word := by
      rw [show Binary64.infinity.word = 2047 * 2 ^ 52 by decide]
      omega
    rw [if_neg (by simpa [Binary64.isNegative] using hnegative)]
    exact Binary64.eq_of_word_eq hword

@[simp] theorem doubleOf_doubleValue (f : Binary64 → Binary64) (x : Binary64) :
    doubleOf ((doubleValue x).mapFloats f) = .ok (restored f x) := by
  unfold doubleValue restored
  cases hfinite : x.isFinite with
  | true => rfl
  | false =>
      cases hnan : x.isNaN with
      | true => rfl
      | false =>
          have hinfinite := eq_signed_infinity hfinite hnan
          cases hnegative : x.isNegative with
          | true =>
              rw [hnegative, if_pos rfl] at hinfinite
              exact congrArg Except.ok hinfinite.symm
          | false =>
              rw [hnegative, if_neg Bool.false_ne_true] at hinfinite
              exact congrArg Except.ok hinfinite.symm

theorem decodeAll_map {α β : Type} {decode : Value → Decoded β} {value : α → Value} {f : α → β}
    {xs : List α} (hdecode : ∀ x ∈ xs, decode (value x) = .ok (f x)) :
    decodeAll decode (xs.map value) = .ok (xs.map f) := by
  induction xs with
  | nil => rfl
  | cons x xs ih =>
      have htail := ih fun y hy => hdecode y (List.mem_cons_of_mem _ hy)
      rw [List.map_cons, decodeAll, hdecode x (by simp), htail]
      rfl

/-! ## Tagged values -/

def LacksKind (members : List (String × Value)) : Prop := ∀ member ∈ members, member.1 ≠ "kind"

theorem splitMembers_of_lacksKind {κ : Type} (family : Family κ) (kind : Option κ)
    {members : List (String × Value)} (hmembers : LacksKind members) :
    family.splitMembers kind members = .ok (kind, members) := by
  induction members with
  | nil => rfl
  | cons member members ih =>
      have hname : member.1 ≠ "kind" := hmembers member (by simp)
      rw [Family.splitMembers, if_neg hname, ih fun other hmem =>
        hmembers other (List.mem_cons_of_mem _ hmem)]
      rfl

theorem split_tagged {κ : Type} (family : Family κ) {kind : κ}
    (hkind : family.ofWord? (family.word kind) = some kind) {members : List (String × Value)}
    (hmembers : LacksKind members) :
    family.split (tagged (family.word kind) members) = .ok (kind, .members members) := by
  have hword : family.kindOf (.string (family.word kind)) = .ok kind := by
    simp only [Family.kindOf, Family.ofWord, choiceOf, hkind]
  simp only [tagged, Family.split, Family.splitMembers, if_true, Option.isSome_none,
    Bool.false_eq_true, if_false, hword, splitMembers_of_lacksKind family _ hmembers, bind,
    Except.bind, pure, Except.pure]

theorem lacksKind_mapFloatsMembers (f : Binary64 → Binary64) {members : List (String × Value)}
    (hmembers : LacksKind members) : LacksKind (Value.mapFloatsMembers f members) := by
  rw [Value.mapFloatsMembers_eq_map]
  intro member hmem
  obtain ⟨source, hsource, rfl⟩ := List.mem_map.mp hmem
  exact hmembers source hsource

theorem depth_le_of_array {items : List Value} {bound : Nat}
    (hdepth : (Value.array items).depth ≤ bound) : ∀ item ∈ items, item.depth ≤ bound := by
  refine Value.depthItems_le_iff.mp ?_
  rw [Value.depth] at hdepth
  omega

/-! ## Types -/

section

-- reading a record from given members is a computation
attribute [local simp] Record.read Record.storeAll Record.required Record.optional Record.field
  Record.and bind Except.bind pure Except.pure Except.map readNothing textOf

theorem encodeTypes_eq_map (types : List TypeDescriptor) :
    encodeTypes types = types.map encodeType := by
  induction types with
  | nil => rfl
  | cons type types ih => rw [encodeTypes, ih, List.map_cons]

@[simp] theorem mapFloats_encodeType (f : Binary64 → Binary64) (type : TypeDescriptor) :
    (encodeType type).mapFloats f = encodeType type := by
  induction type using TypeDescriptor.nestedInduction with
  | int => rfl
  | double => rfl
  | string => rfl
  | void => rfl
  | unspec => rfl
  | pointer referenced ih =>
      simp [encodeType, tagged, Value.mapFloats, Value.mapFloatsMembers, ih]
  | functional inputs output ihinputs ihoutput =>
      have hinputs : inputs.map (Value.mapFloats f ∘ encodeType) = inputs.map encodeType :=
        List.map_congr_left ihinputs
      simp only [encodeType, tagged, Value.mapFloats, Value.mapFloatsMembers,
        Value.mapFloatsItems_eq_map, encodeTypes_eq_map, List.map_map, ihoutput, hinputs]

theorem typeOf_tagged (kind : TypeKind) {members : List (String × Value)}
    {type : TypeDescriptor} {depth : Nat} (hmembers : LacksKind members)
    (hdepth : (tagged kind.word members).depth ≤ depth)
    (hcontent : ∀ inner, (∀ member ∈ members, member.2.depth ≤ inner) →
      typeOfContent (typeOf inner) kind (.members members) = .ok type) :
    typeOf depth (tagged kind.word members) = .ok type := by
  have hsplit : typeFamily.split (tagged kind.word members) = .ok (kind, .members members) :=
    split_tagged typeFamily (TypeKind.ofWord?_word kind) hmembers
  cases depth with
  | zero => simp [tagged, Value.depth] at hdepth
  | succ depth =>
      have hfit := Value.depth_object_le_iff.mp hdepth
      simp only [typeOf, hsplit, bind, Except.bind]
      exact hcontent depth fun member hmem => hfit member (List.mem_cons_of_mem _ hmem)

theorem typeOf_encodeType (type : TypeDescriptor) {depth : Nat}
    (hdepth : (encodeType type).depth ≤ depth) : typeOf depth (encodeType type) = .ok type := by
  induction type using TypeDescriptor.nestedInduction generalizing depth with
  | int => exact typeOf_tagged .int (by simp [LacksKind]) hdepth fun _ _ => rfl
  | double => exact typeOf_tagged .double (by simp [LacksKind]) hdepth fun _ _ => rfl
  | string => exact typeOf_tagged .string (by simp [LacksKind]) hdepth fun _ _ => rfl
  | void => exact typeOf_tagged .void (by simp [LacksKind]) hdepth fun _ _ => rfl
  | unspec => exact typeOf_tagged .unspec (by simp [LacksKind]) hdepth fun _ _ => rfl
  | pointer referenced ih =>
      refine typeOf_tagged .pointer (by simp [LacksKind]) hdepth fun inner hinner => ?_
      have hreferenced := ih (hinner ("referenced", _) (by simp))
      simp [typeOfContent, hreferenced]
  | functional inputs output ihinputs ihoutput =>
      refine typeOf_tagged .functional (by simp [LacksKind]) hdepth fun inner hinner => ?_
      have hitems := depth_le_of_array (hinner ("inputs", .array (encodeTypes inputs)) (by simp))
      rw [encodeTypes_eq_map] at hitems ⊢
      have hinputs : decodeAll (typeOf inner) (inputs.map encodeType) = .ok (inputs.map id) :=
        decodeAll_map fun input hmem => ihinputs input hmem (hitems _ (List.mem_map_of_mem hmem))
      have houtput := ihoutput (hinner ("output", _) (by simp))
      simp [typeOfContent, listOf, hinputs, houtput]

/-! ## Nodes -/

theorem encodeAll_eq_map (nodes : List Node) : encodeAll nodes = nodes.map encode := by
  induction nodes with
  | nil => rfl
  | cons node nodes ih => rw [encodeAll, ih, List.map_cons]

/-- The members of the object of a node, without its kind. -/
def parts (node : Node) : List (String × Value) :=
  match encode node with
  | .object (_ :: members) => members
  | _ => []

theorem encode_eq_object (node : Node) : encode node = object node.kind (parts node) := by
  cases node <;> rfl

theorem lacksKind_member? {name : String} (hname : name ≠ "kind") (value : Option Value) :
    LacksKind (member? name value) := by
  cases value <;> simp [LacksKind, member?, hname]

theorem LacksKind.append {front back : List (String × Value)} (hfront : LacksKind front)
    (hback : LacksKind back) : LacksKind (front ++ back) := by
  intro member hmem
  rcases List.mem_append.mp hmem with hleft | hright
  · exact hfront member hleft
  · exact hback member hright

theorem lacksKind_encodeBlock (body : Block Node) : LacksKind (encodeBlock body) := by
  obtain ⟨declarations, instructions⟩ := body
  rw [encodeBlock]
  exact (lacksKind_member? (by decide) _).append (lacksKind_member? (by decide) _)

theorem lacksKind_parts (node : Node) : LacksKind (parts node) := by
  cases node with
  | block body => exact lacksKind_encodeBlock body
  | declaration identifier qualifier type initializer =>
      have hoptional := (lacksKind_member? (show "type" ≠ "kind" by decide)
        (type.map encodeType)).append
          (lacksKind_member? (show "initializer" ≠ "kind" by decide) (encodeOption initializer))
      have hfront : LacksKind [("identifier", .string identifier),
          ("qualifier", .string qualifier.word)] := by simp [LacksKind]
      exact hfront.append hoptional
  | functionDefinition type arguments body =>
      have hblock : LacksKind [("block", .object (encodeBlock body))] := by simp [LacksKind]
      exact ((lacksKind_member? (by decide) _).append (lacksKind_member? (by decide) _)).append
        hblock
  | functionCall identifier arguments =>
      exact (lacksKind_member? (by decide) _).append (lacksKind_member? (by decide) _)
  | ret value => exact lacksKind_member? (by decide) _
  | _ => simp [LacksKind, parts, encode, object, tagged]

/-- Is the node decoded from the value of it, whatever the bound? -/
def Decodes (f : Binary64 → Binary64) (node : Node) : Prop :=
  ∀ depth, (encode node).depth ≤ depth →
    nodeOf depth ((encode node).mapFloats f) = .ok (node.mapDoubles (restored f))

/-- Is the node decoded from the members of its object, if their bound is one
for all of them? -/
def DecodesParts (f : Binary64 → Binary64) (node : Node) : Prop :=
  ∀ depth, (∀ member ∈ parts node, member.2.depth ≤ depth) →
    nodeOfContent (nodeOf depth) (typeOf depth) node.kind
      (.members (Value.mapFloatsMembers f (parts node))) = .ok (node.mapDoubles (restored f))

theorem DecodesParts.decodes {f : Binary64 → Binary64} {node : Node}
    (hparts : DecodesParts f node) : Decodes f node := by
  intro depth hdepth
  have hmembers := lacksKind_mapFloatsMembers f (lacksKind_parts node)
  have hsplit : nodeFamily.split
      (tagged node.kind.word (Value.mapFloatsMembers f (parts node))) =
        .ok (node.kind, .members (Value.mapFloatsMembers f (parts node))) :=
    split_tagged nodeFamily (Kind.ofWord?_word node.kind) hmembers
  rw [encode_eq_object] at hdepth ⊢
  cases depth with
  | zero => simp [object, tagged, Value.depth] at hdepth
  | succ depth =>
      have hfit := Value.depth_object_le_iff.mp hdepth
      have hvalue : (object node.kind (parts node)).mapFloats f =
          tagged node.kind.word (Value.mapFloatsMembers f (parts node)) := rfl
      simp only [nodeOf, hvalue, hsplit, bind, Except.bind]
      exact hparts depth fun member hmem => hfit member (List.mem_cons_of_mem _ hmem)

section Parts

variable {f : Binary64 → Binary64} {depth : Nat}

theorem listOf_encodeAll {nodes : List Node} (hnodes : ∀ node ∈ nodes, Decodes f node)
    (hdepth : (Value.array (encodeAll nodes)).depth ≤ depth) :
    listOf (nodeOf depth) ((Value.array (encodeAll nodes)).mapFloats f) =
      .ok (Node.mapDoublesAll (restored f) nodes) := by
  have hitems := depth_le_of_array hdepth
  rw [encodeAll_eq_map] at hitems ⊢
  rw [Value.mapFloats, Value.mapFloatsItems_eq_map, Node.mapDoublesAll_eq_map, List.map_map]
  exact decodeAll_map fun node hmem => hnodes node hmem depth (hitems _ (List.mem_map_of_mem hmem))

theorem sequenceOf_sequenceValue {nodes : List Node} (hnodes : ∀ node ∈ nodes, Decodes f node)
    (hdepth : (sequenceValue (encodeAll nodes)).depth ≤ depth) :
    sequenceOf (nodeOf depth) ((sequenceValue (encodeAll nodes)).mapFloats f) =
      .ok (Node.mapDoublesAll (restored f) nodes) := by
  have harray : (Value.array (encodeAll nodes)).depth ≤ depth := by
    simp only [sequenceValue, Value.depth, Value.depthMembers] at hdepth ⊢
    omega
  have hlist := listOf_encodeAll hnodes harray
  simp only [sequenceValue, Value.mapFloats, Value.mapFloatsMembers] at hlist ⊢
  simp [sequenceOf, contentOf, sequenceRecord, hlist]

theorem optionOf_encode {node : Node} (hnode : Decodes f node)
    (hdepth : (encode node).depth ≤ depth) :
    optionOf (nodeOf depth) ((encode node).mapFloats f) =
      .ok (some (node.mapDoubles (restored f))) := by
  have hdecode := hnode depth hdepth
  rw [encode_eq_object] at hdecode ⊢
  have hvalue : (object node.kind (parts node)).mapFloats f =
      .object (("kind", .string node.kind.word) :: Value.mapFloatsMembers f (parts node)) := rfl
  rw [hvalue] at hdecode ⊢
  simp only [optionOf, hdecode, Except.map]

theorem optionOf_sequenceValue {nodes : List Node} (hnodes : ∀ node ∈ nodes, Decodes f node)
    (hdepth : (sequenceValue (encodeAll nodes)).depth ≤ depth) :
    optionOf (sequenceOf (nodeOf depth)) ((sequenceValue (encodeAll nodes)).mapFloats f) =
      .ok (some (Node.mapDoublesAll (restored f) nodes)) := by
  have hdecode := sequenceOf_sequenceValue hnodes hdepth
  simp only [sequenceValue, Value.mapFloats, Value.mapFloatsMembers] at hdecode ⊢
  simp only [optionOf, hdecode, Except.map]

theorem optionOf_encodeType {type : TypeDescriptor} (hdepth : (encodeType type).depth ≤ depth) :
    optionOf (typeOf depth) (encodeType type) = .ok (some type) := by
  have hdecode := typeOf_encodeType type hdepth
  cases type <;>
    simp only [encodeType, tagged] at hdecode ⊢ <;>
    simp only [optionOf, hdecode, Except.map]

theorem blockOfContent_encodeBlock {declarations instructions : Option (List Node)}
    (hdeclarations : ∀ nodes ∈ declarations, ∀ node ∈ nodes, Decodes f node)
    (hinstructions : ∀ nodes ∈ instructions, ∀ node ∈ nodes, Decodes f node)
    (hdepth : ∀ member ∈ encodeBlock ⟨declarations, instructions⟩, member.2.depth ≤ depth) :
    blockOfContent (nodeOf depth)
        (.members (Value.mapFloatsMembers f (encodeBlock ⟨declarations, instructions⟩))) =
      .ok (Node.mapDoublesBlock (restored f) ⟨declarations, instructions⟩) := by
  cases declarations with
  | none =>
      cases instructions with
      | none => rfl
      | some instructions =>
          have hsecond := optionOf_sequenceValue (hinstructions _ rfl)
            (hdepth ("instructions", sequenceValue (encodeAll instructions))
              (by simp [encodeBlock, encodeSequence?, member?]))
          simp [blockOfContent, blockRecord, encodeBlock, encodeSequence?, member?,
            Value.mapFloatsMembers, Node.mapDoublesBlock, Node.mapDoublesSequence?, hsecond]
  | some declarations =>
      have hfirst := optionOf_sequenceValue (hdeclarations _ rfl)
        (hdepth ("declarations", sequenceValue (encodeAll declarations))
          (by simp [encodeBlock, encodeSequence?, member?]))
      cases instructions with
      | none =>
          simp [blockOfContent, blockRecord, encodeBlock, encodeSequence?, member?,
            Value.mapFloatsMembers, Node.mapDoublesBlock, Node.mapDoublesSequence?, hfirst]
      | some instructions =>
          have hsecond := optionOf_sequenceValue (hinstructions _ rfl)
            (hdepth ("instructions", sequenceValue (encodeAll instructions))
              (by simp [encodeBlock, encodeSequence?, member?]))
          simp [blockOfContent, blockRecord, encodeBlock, encodeSequence?, member?,
            Value.mapFloatsMembers, Node.mapDoublesBlock, Node.mapDoublesSequence?, hfirst,
            hsecond]

theorem blockOf_encodeBlock {declarations instructions : Option (List Node)}
    (hdeclarations : ∀ nodes ∈ declarations, ∀ node ∈ nodes, Decodes f node)
    (hinstructions : ∀ nodes ∈ instructions, ∀ node ∈ nodes, Decodes f node)
    (hdepth : (Value.object (encodeBlock ⟨declarations, instructions⟩)).depth ≤ depth) :
    blockOf (nodeOf depth)
        ((Value.object (encodeBlock ⟨declarations, instructions⟩)).mapFloats f) =
      .ok (Node.mapDoublesBlock (restored f) ⟨declarations, instructions⟩) := by
  have hmembers : ∀ member ∈ encodeBlock ⟨declarations, instructions⟩,
      member.2.depth ≤ depth := by
    refine Value.depthMembers_le_iff.mp ?_
    rw [Value.depth] at hdepth
    omega
  rw [Value.mapFloats]
  exact blockOfContent_encodeBlock hdeclarations hinstructions hmembers

theorem listOf_bytes (bytes : List UInt8) :
    listOf byteOf ((Value.array (bytes.map fun byte => .integer byte.toNat)).mapFloats f) =
      .ok bytes := by
  rw [Value.mapFloats, Value.mapFloatsItems_eq_map, List.map_map, listOf]
  have hbytes : decodeAll byteOf
      (bytes.map (Value.mapFloats f ∘ fun byte => .integer byte.toNat)) = .ok (bytes.map id) :=
    decodeAll_map fun byte _ => byteOf_toNat byte
  rw [hbytes, List.map_id]

end Parts

section

attribute [local simp] parts encode encodeOption encodeSequence? member? object tagged Node.kind
  nodeOfContent Value.mapFloatsMembers Node.mapDoubles Node.mapDoublesOption
  Node.mapDoublesSequence?

@[simp] theorem mapFloats_intValue (f : Binary64 → Binary64) (i : Int32) :
    (intValue i).mapFloats f = intValue i := by
  rw [intValue, Value.mapFloats]
  all_goals simp

@[simp] theorem mapFloats_string (f : Binary64 → Binary64) (s : String) :
    (Value.string s).mapFloats f = .string s := by
  rw [Value.mapFloats]
  all_goals simp

theorem decodesParts (f : Binary64 → Binary64) (node : Node) : DecodesParts f node := by
  induction node using Node.nestedInduction with
  | integer value =>
      intro depth hdepth
      simp
  | double value =>
      intro depth hdepth
      simp
  | string value =>
      intro depth hdepth
      simp
  | nil =>
      intro depth hdepth
      simp
  | null =>
      intro depth hdepth
      simp
  | data bytes =>
      intro depth hdepth
      simp [listOf_bytes]
  | unary op argument ih =>
      intro depth hdepth
      have hargument := ih.decodes depth (hdepth ("argument", encode argument) (by simp))
      simp [hargument]
  | binary op left right ihleft ihright =>
      intro depth hdepth
      have hleft := ihleft.decodes depth (hdepth ("left", encode left) (by simp))
      have hright := ihright.decodes depth (hdepth ("right", encode right) (by simp))
      simp [hleft, hright]
  | var name =>
      intro depth hdepth
      simp
  | index base index ihbase ihindex =>
      intro depth hdepth
      have hbase := ihbase.decodes depth (hdepth ("base", encode base) (by simp))
      have hindex := ihindex.decodes depth (hdepth ("index", encode index) (by simp))
      simp [hbase, hindex]
  | addressOf lvalue ih =>
      intro depth hdepth
      have hlvalue := ih.decodes depth (hdepth ("lvalue", encode lvalue) (by simp))
      simp [hlvalue]
  | stackAlloc argument ih =>
      intro depth hdepth
      have hargument := ih.decodes depth (hdepth ("argument", encode argument) (by simp))
      simp [hargument]
  | rvalue lvalue ih =>
      intro depth hdepth
      have hlvalue := ih.decodes depth (hdepth ("lvalue", encode lvalue) (by simp))
      simp [hlvalue]
  | assignment lvalue rvalue ihlvalue ihrvalue =>
      intro depth hdepth
      have hlvalue := ihlvalue.decodes depth (hdepth ("lvalue", encode lvalue) (by simp))
      have hrvalue := ihrvalue.decodes depth (hdepth ("rvalue", encode rvalue) (by simp))
      simp [hlvalue, hrvalue]
  | sequence nodes ih =>
      intro depth hdepth
      have hnodes := listOf_encodeAll (fun node hmem => (ih node hmem).decodes)
        (hdepth ("nodes", .array (encodeAll nodes)) (by simp))
      simp [sequenceRecord, hnodes]
  | block declarations instructions ihdeclarations ihinstructions =>
      intro depth hdepth
      have hblock := blockOfContent_encodeBlock
        (fun nodes hnodes node hmem => (ihdeclarations nodes hnodes node hmem).decodes)
        (fun nodes hnodes node hmem => (ihinstructions nodes hnodes node hmem).decodes) hdepth
      simp [hblock]
  | declaration identifier qualifier type initializer ih =>
      intro depth hdepth
      have htype : ∀ known ∈ type, optionOf (typeOf depth) (encodeType known) =
          .ok (some known) := by
        rintro known rfl
        exact optionOf_encodeType (hdepth ("type", encodeType known) (by simp))
      have hinitializer : ∀ node ∈ initializer,
          optionOf (nodeOf depth) ((encode node).mapFloats f) =
            .ok (some (node.mapDoubles (restored f))) := by
        rintro node rfl
        exact optionOf_encode (ih node rfl).decodes
          (hdepth ("initializer", encode node) (by simp))
      cases type <;> cases initializer <;> simp [htype, hinitializer]
  | functionDefinition type arguments declarations instructions iharguments ihdeclarations
      ihinstructions =>
      intro depth hdepth
      have htype : ∀ known ∈ type, optionOf (typeOf depth) (encodeType known) =
          .ok (some known) := by
        rintro known rfl
        exact optionOf_encodeType (hdepth ("type", encodeType known) (by simp))
      have harguments : ∀ nodes ∈ arguments,
          optionOf (sequenceOf (nodeOf depth)) ((sequenceValue (encodeAll nodes)).mapFloats f) =
            .ok (some (Node.mapDoublesAll (restored f) nodes)) := by
        rintro nodes rfl
        exact optionOf_sequenceValue (fun node hmem => (iharguments nodes rfl node hmem).decodes)
          (hdepth ("arguments", sequenceValue (encodeAll nodes)) (by simp))
      have hblock := blockOf_encodeBlock
        (fun nodes hnodes node hmem => (ihdeclarations nodes hnodes node hmem).decodes)
        (fun nodes hnodes node hmem => (ihinstructions nodes hnodes node hmem).decodes)
        (hdepth ("block", .object (encodeBlock ⟨declarations, instructions⟩)) (by simp))
      cases type <;> cases arguments <;> simp [htype, harguments, hblock]
  | functionCall identifier arguments ihidentifier iharguments =>
      intro depth hdepth
      have hidentifier : ∀ node ∈ identifier,
          optionOf (nodeOf depth) ((encode node).mapFloats f) =
            .ok (some (node.mapDoubles (restored f))) := by
        rintro node rfl
        exact optionOf_encode (ihidentifier node rfl).decodes
          (hdepth ("identifier", encode node) (by simp))
      have harguments : ∀ nodes ∈ arguments,
          optionOf (sequenceOf (nodeOf depth)) ((sequenceValue (encodeAll nodes)).mapFloats f) =
            .ok (some (Node.mapDoublesAll (restored f) nodes)) := by
        rintro nodes rfl
        exact optionOf_sequenceValue (fun node hmem => (iharguments nodes rfl node hmem).decodes)
          (hdepth ("arguments", sequenceValue (encodeAll nodes)) (by simp))
      cases identifier <;> cases arguments <;> simp [hidentifier, harguments]
  | sizeof expression ih =>
      intro depth hdepth
      have hexpression := ih.decodes depth (hdepth ("expression", encode expression) (by simp))
      simp [hexpression]
  | ifThen condition block ihcondition ihblock =>
      intro depth hdepth
      have hcondition := ihcondition.decodes depth
        (hdepth ("condition", encode condition) (by simp))
      have hblock := ihblock.decodes depth (hdepth ("block", encode block) (by simp))
      simp [hcondition, hblock]
  | ifElse condition thenBlock elseBlock ihcondition ihthen ihelse =>
      intro depth hdepth
      have hcondition := ihcondition.decodes depth
        (hdepth ("condition", encode condition) (by simp))
      have hthen := ihthen.decodes depth (hdepth ("then_block", encode thenBlock) (by simp))
      have helse := ihelse.decodes depth (hdepth ("else_block", encode elseBlock) (by simp))
      simp [hcondition, hthen, helse]
  | whileLoop condition block ihcondition ihblock =>
      intro depth hdepth
      have hcondition := ihcondition.decodes depth
        (hdepth ("condition", encode condition) (by simp))
      have hblock := ihblock.decodes depth (hdepth ("block", encode block) (by simp))
      simp [hcondition, hblock]
  | ret value ih =>
      intro depth hdepth
      cases value with
      | none => simp
      | some value =>
          have hvalue := optionOf_encode (ih value rfl).decodes
            (hdepth ("value", encode value) (by simp))
          simp [hvalue]
  | stop level =>
      intro depth hdepth
      simp
  | next level =>
      intro depth hdepth
      simp
  | input =>
      intro depth hdepth
      simp
  | print arguments ih =>
      intro depth hdepth
      have harguments := sequenceOf_sequenceValue (fun node hmem => (ih node hmem).decodes)
        (hdepth ("arguments", sequenceValue (encodeAll arguments)) (by simp))
      simp [harguments]
  | evaluation argument ih =>
      intro depth hdepth
      have hargument := ih.decodes depth (hdepth ("argument", encode argument) (by simp))
      simp [hargument]

end

end

end Interchange
end SyntaxDump

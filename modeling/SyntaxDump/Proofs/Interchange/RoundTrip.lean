import Mathlib.Tactic
import SyntaxDump.Format.Builtin
import SyntaxDump.Proofs.Interchange.Decode
import SyntaxDump.Proofs.Json.Nesting
import SyntaxDump.Proofs.Json.ReadBack

/-!
# Documents are read back

A document of a tree is the text of a value whose outermost object is read
member by member: its first member is the kind, which is decoded at once, and
the others are collected.  So a document within the nesting limit is the tree
again, with the doubles that their texts stand for, and any other one is an
error.
-/

namespace SyntaxDump
namespace Interchange

open Json (Value Style Yields EndsNumber)

/-! ## The values of trees can be written -/

theorem inWordRange_toInt (i : Int32) : Json.InWordRange i.toInt := by
  have hlow := i.le_toInt
  have hhigh := i.toInt_lt
  constructor <;> omega

theorem writable_doubleValue (x : Binary64) : (doubleValue x).Writable := by
  unfold doubleValue
  split_ifs with hfinite
  · exact hfinite
  · simp [Value.Writable]
  · simp [Value.Writable]
  · simp [Value.Writable]

theorem writable_encodeType (type : TypeDescriptor) : (encodeType type).Writable := by
  induction type using TypeDescriptor.nestedInduction with
  | int => simp [encodeType, tagged, Value.Writable, Value.WritableMembers]
  | double => simp [encodeType, tagged, Value.Writable, Value.WritableMembers]
  | string => simp [encodeType, tagged, Value.Writable, Value.WritableMembers]
  | void => simp [encodeType, tagged, Value.Writable, Value.WritableMembers]
  | unspec => simp [encodeType, tagged, Value.Writable, Value.WritableMembers]
  | pointer referenced ih => simp [encodeType, tagged, Value.Writable, Value.WritableMembers, ih]
  | functional inputs output ihinputs ihoutput =>
      have hinputs : Value.WritableItems (encodeTypes inputs) := by
        rw [encodeTypes_eq_map, Value.writableItems_iff]
        simpa using ihinputs
      simp [encodeType, tagged, Value.Writable, Value.WritableMembers, hinputs, ihoutput]

theorem writableItems_encodeAll {nodes : List Node}
    (hnodes : ∀ node ∈ nodes, (encode node).Writable) : Value.WritableItems (encodeAll nodes) := by
  rw [encodeAll_eq_map, Value.writableItems_iff]
  simpa using hnodes

theorem writable_sequenceValue {nodes : List Node}
    (hnodes : ∀ node ∈ nodes, (encode node).Writable) :
    (sequenceValue (encodeAll nodes)).Writable :=
  ⟨writableItems_encodeAll hnodes, trivial⟩

theorem writableMembers_append {front back : List (String × Value)} :
    Value.WritableMembers (front ++ back) ↔
      Value.WritableMembers front ∧ Value.WritableMembers back := by
  simp only [Value.writableMembers_iff, List.mem_append, or_imp, forall_and]

theorem writableMembers_member? {name : String} {value : Option Value} :
    Value.WritableMembers (member? name value) ↔ ∀ known ∈ value, known.Writable := by
  cases value <;> simp [member?, Value.WritableMembers]

theorem writable_of_mem_type (type : Option TypeDescriptor) :
    ∀ known ∈ type.map encodeType, known.Writable := by
  intro known hknown
  obtain ⟨source, -, rfl⟩ := Option.map_eq_some_iff.mp hknown
  exact writable_encodeType source

theorem writable_of_mem_option {node : Option Node}
    (hnode : ∀ known ∈ node, (encode known).Writable) :
    ∀ value ∈ encodeOption node, value.Writable := by
  cases node with
  | none => simp [encodeOption]
  | some node => simpa [encodeOption] using hnode node rfl

theorem writable_of_mem_sequence {nodes : Option (List Node)}
    (hnodes : ∀ known ∈ nodes, ∀ node ∈ known, (encode node).Writable) :
    ∀ value ∈ encodeSequence? nodes, value.Writable := by
  cases nodes with
  | none => simp [encodeSequence?]
  | some nodes => simpa [encodeSequence?] using writable_sequenceValue (hnodes nodes rfl)

theorem writableMembers_encodeBlock {declarations instructions : Option (List Node)}
    (hdeclarations : ∀ known ∈ declarations, ∀ node ∈ known, (encode node).Writable)
    (hinstructions : ∀ known ∈ instructions, ∀ node ∈ known, (encode node).Writable) :
    Value.WritableMembers (encodeBlock ⟨declarations, instructions⟩) := by
  rw [encodeBlock, writableMembers_append, writableMembers_member?, writableMembers_member?]
  exact ⟨writable_of_mem_sequence hdeclarations, writable_of_mem_sequence hinstructions⟩

section

attribute [local simp] encode object tagged Value.Writable Value.WritableMembers intValue
  inWordRange_toInt writable_doubleValue writableMembers_append writableMembers_member?

theorem writable_encode (node : Node) : (encode node).Writable := by
  induction node using Node.nestedInduction with
  | data bytes =>
      have hbytes : Value.WritableItems (bytes.map fun byte => .integer byte.toNat) := by
        rw [Value.writableItems_iff]
        intro value hvalue
        obtain ⟨byte, -, rfl⟩ := List.mem_map.mp hvalue
        have hlt := byte.toNat_lt
        constructor <;> omega
      simp [hbytes]
  | sequence nodes ih => simp [writableItems_encodeAll ih]
  | block declarations instructions ihdeclarations ihinstructions =>
      simp [writableMembers_encodeBlock ihdeclarations ihinstructions]
  | declaration identifier qualifier type initializer ih =>
      have htype := writable_of_mem_type type
      have hinitializer := writable_of_mem_option ih
      simp_all
  | functionDefinition type arguments declarations instructions iharguments ihdeclarations
      ihinstructions =>
      have htype := writable_of_mem_type type
      have harguments := writable_of_mem_sequence iharguments
      have hblock := writableMembers_encodeBlock ihdeclarations ihinstructions
      simp_all
  | functionCall identifier arguments ihidentifier iharguments =>
      have hidentifier := writable_of_mem_option ihidentifier
      have harguments := writable_of_mem_sequence iharguments
      simp_all
  | ret value ih => simpa using writable_of_mem_option ih
  | print arguments ih => simp [writable_sequenceValue ih]
  | _ => simp_all

end

/-! ## The outermost object -/

theorem rootMember_kind (style : Style) (kind : Kind) (depth : Nat) (rest : List Char) :
    rootMember ⟨none, []⟩ "kind" (Json.valueOnto style (.string kind.word) depth rest) =
      .ok (⟨some kind, []⟩, rest) := by
  obtain ⟨rest', hcolon, hblank⟩ := Json.readColon_colon style
    (Json.writeOnto style (.string kind.word) depth rest)
  have hkind : readKind rest' = .ok (kind, rest) := by
    have hread := Json.readValue_string 0 kind.word rest
    have hword : nodeFamily.ofWord kind.word = .ok kind := by
      simp only [Family.ofWord, choiceOf, nodeFamily, Kind.ofWord?_word]
    obtain ⟨tail, hcons⟩ : ∃ tail, Json.stringText kind.word ++ rest = '"' :: tail := ⟨_, rfl⟩
    have hsolid : Json.skipBlanks ('"' :: tail) = '"' :: tail :=
      (Json.StartsSolid.cons (by decide) tail).skipBlanks
    rw [hcons] at hread
    rw [readKind, hblank, Json.writeOnto, hcons, hsolid]
    split
    · rename_i heq
      exact absurd (List.cons.inj heq).1 (by decide)
    · rename_i heq
      exact absurd (List.cons.inj heq).1 (by decide)
    · simp only [hread, bind, Except.bind, hword, locate]
  simp only [rootMember, Json.valueOnto, hcolon, if_true, Option.isSome_none,
    Bool.false_eq_true, if_false, bind, Except.bind, hkind, pure, Except.pure]

theorem rootMember_other {style : Style} {name : String} (hname : name ≠ "kind")
    {value : Value} (hvalue : value.Writable) (state : Opened (String × Value)) (depth : Nat)
    {rest : List Char} (hrest : EndsNumber rest) :
    Yields (rootMember state name (Json.valueOnto style value depth rest))
      (value.depth ≤ innerDepth)
      { state with found := (name, value.mapFloats Json.rereadFloat) :: state.found } rest := by
  have hcollect := Json.collectMember_valueOnto
    (Json.readValue_writeOnto style hvalue innerDepth depth hrest) state.found name
  rw [rootMember, if_neg hname]
  exact hcollect.map fun found => { state with found }

theorem foldl_found (f : String × Value → String × Value) (members : List (String × Value))
    (state : Opened (String × Value)) :
    members.foldl (fun state member => { state with found := f member :: state.found }) state =
      { state with found := (members.map f).reverse ++ state.found } := by
  induction members generalizing state with
  | nil => rfl
  | cons member members ih => simp [ih]

/-- A root whose first member is its kind is read back unless another member is
nested too deep. -/
theorem readRoot_object (style : Style) (kind : Kind) {members : List (String × Value)}
    (hkinds : LacksKind members) (hwritable : ∀ member ∈ members, member.2.Writable) :
    Yields (readRoot (Json.write style (object kind members) 0))
      (∀ member ∈ members, member.2.depth ≤ innerDepth)
      (kind, .members (Value.mapFloatsMembers Json.rereadFloat members)) [] := by
  have hmembers := Json.readMembers_yields_of_first ("kind", .string kind.word) 0 []
    (rootMember_kind style kind 1 (Json.membersEnd style 1 0 [] members))
    (fun other hmem state rest hrest =>
      rootMember_other (hkinds other hmem) (hwritable other hmem) state 1 hrest)
  have htext : Json.write style (object kind members) 0 =
      '{' :: (style.break 1 ++ Json.memberOnto style ("kind", .string kind.word) 1
        (Json.membersEnd style 1 0 [] members)) := rfl
  rw [foldl_found fun member => (member.1, member.2.mapFloats Json.rereadFloat),
    ← Value.mapFloatsMembers_eq_map, List.append_nil] at hmembers
  have hsolid : ∀ cs, Json.skipBlanks ('{' :: cs) = '{' :: cs :=
    fun cs => (Json.StartsSolid.cons (by decide) cs).skipBlanks
  rw [htext]
  constructor
  · intro hfits
    have hread := hmembers.1 hfits
    simp only [readRoot, hsolid, hread, bind, Except.bind, pure, Except.pure, List.reverse_reverse]
  · intro hnot
    obtain ⟨failure, hfailure⟩ := hmembers.2 hnot
    refine ⟨failure, ?_⟩
    simp only [readRoot, hsolid, hfailure, bind, Except.bind]

theorem writable_of_mem_parts (node : Node) : ∀ member ∈ parts node, member.2.Writable := by
  have hnode := writable_encode node
  rw [encode_eq_object] at hnode
  exact fun member hmem => Value.writableMembers_iff.mp hnode member (List.mem_cons_of_mem _ hmem)

/-- The root of a document is read back unless a part of it is nested too
deep. -/
theorem readRoot_document (style : Style) (node : Node) :
    Yields (readRoot (Json.write style (encode node) 0))
      (∀ member ∈ parts node, member.2.depth ≤ innerDepth)
      (node.kind, .members (Value.mapFloatsMembers Json.rereadFloat (parts node))) [] := by
  rw [encode_eq_object]
  exact readRoot_object style node.kind (lacksKind_parts node) (writable_of_mem_parts node)

/-! ## Documents -/

theorem depth_object_le_maxDepth_iff {kind : Kind} {members : List (String × Value)} :
    (object kind members).depth ≤ Json.maxDepth ↔
      ∀ member ∈ members, member.2.depth ≤ innerDepth := by
  rw [show Json.maxDepth = innerDepth + 1 from rfl]
  refine Value.depth_object_le_iff.trans ?_
  simp [Value.depth]

theorem depth_encode_le_iff (node : Node) :
    (encode node).depth ≤ Json.maxDepth ↔
      ∀ member ∈ parts node, member.2.depth ≤ innerDepth := by
  rw [encode_eq_object]
  exact depth_object_le_maxDepth_iff

/-- The text of an object within the nesting limit is what its members decode
to. -/
theorem read_object (style : Style) (kind : Kind) {members : List (String × Value)}
    (hkinds : LacksKind members) (hwritable : ∀ member ∈ members, member.2.Writable)
    (hdepth : ∀ member ∈ members, member.2.depth ≤ innerDepth) {node : Node}
    (hcontent : nodeOfContent (nodeOf Json.maxDepth) (typeOf Json.maxDepth) kind
      (.members (Value.mapFloatsMembers Json.rereadFloat members)) = .ok node) :
    read ((object kind members).text style) = .ok node := by
  have hroot := (readRoot_object style kind hkinds hwritable).1 hdepth
  have htext : ((object kind members).text style).toList =
      Json.write style (object kind members) 0 := String.toList_ofList
  have hend : readEnd [] = .ok () := rfl
  simp only [read, htext, hroot, atPosition, hcontent, hend, bind, Except.bind,
    Except.mapError, pure, Except.pure]

/-- A document is the tree with the doubles restored, or an error if it is
nested too deep. -/
theorem read_write (style : Style) (node : Node) :
    ((encode node).depth ≤ Json.maxDepth →
      read (write style node) = .ok (node.mapDoubles (restored Json.rereadFloat))) ∧
    (Json.maxDepth < (encode node).depth → ∃ error, read (write style node) = .error error) := by
  constructor
  · intro hdepth
    have hparts := (depth_encode_le_iff node).mp hdepth
    -- the decoder's own bound is that of the whole document
    have hcontent := decodesParts Json.rereadFloat node Json.maxDepth fun member hmem =>
      le_trans (hparts member hmem) (Nat.sub_le _ 1)
    rw [write, encode_eq_object]
    exact read_object style node.kind (lacksKind_parts node) (writable_of_mem_parts node) hparts
      hcontent
  · intro hdepth
    have hparts := (depth_encode_le_iff node).not.mp (Nat.not_le.mpr hdepth)
    have htext : (write style node).toList = Json.write style (encode node) 0 :=
      String.toList_ofList
    obtain ⟨failure, hfailure⟩ := (readRoot_document style node).2 hparts
    refine ⟨.located failure.cause (failure.position (Json.write style (encode node) 0)), ?_⟩
    simp only [read, htext, hfailure, atPosition, bind, Except.bind]

/-- The double that comes back from the document of a single double. -/
def reread (x : Binary64) : Binary64 :=
  match read (write .compact (.double x)) with
  | .ok (.double y) => y
  | _ => x

theorem depth_encode_double (x : Binary64) : (encode (.double x)).depth = 1 := by
  have hscalar : (doubleValue x).depth = 0 := by
    unfold doubleValue
    split_ifs <;> rfl
  simp [encode, object, tagged, Value.depth, Value.depthMembers, hscalar]

theorem reread_eq_restored : reread = restored Json.rereadFloat := by
  funext x
  have hread := (read_write .compact (.double x)).1 (by rw [depth_encode_double]; decide)
  rw [reread, hread]
  rfl

theorem read_write_double (style : Style) (x : Binary64) :
    read (write style (.double x)) = .ok (.double (reread x)) := by
  rw [reread_eq_restored]
  exact (read_write style (.double x)).1 (by rw [depth_encode_double]; decide)

theorem reread_of_isNaN {x : Binary64} (hx : x.isNaN = true) : reread x = Binary64.nan := by
  have hfinite : x.isFinite = false := by
    unfold Binary64.isNaN at hx
    simpa using (Bool.and_eq_true_iff.mp hx).1
  rw [reread_eq_restored, restored, hfinite, hx]
  rfl

theorem reread_of_isInfinite {x : Binary64} (hx : x.isInfinite = true) : reread x = x := by
  obtain ⟨hfinite, hfraction⟩ := Bool.and_eq_true_iff.mp hx
  have hnan : x.isNaN = false := by
    simp only [Binary64.isNaN, bne, hfraction, Bool.not_true, Bool.and_false]
  rw [reread_eq_restored, restored, hnan, if_neg (by simpa using hfinite)]
  rfl

theorem getLast?_write (style : Json.Style) (node : Node) :
    (write style node).toList.getLast? = some '}' := by
  rw [write, encode_eq_object, Json.Value.text, String.toList_ofList]
  exact Json.getLast?_write_object style _ 0

theorem nesting_write (style : Style) (node : Node) :
    Json.nesting (write style node) = (encode node).depth :=
  Json.nesting_text style (writable_encode node)

end Interchange

open Interchange (reread)

/-- Parsing undoes serialization for every tree and in both forms, up to the
nesting limit.  Only doubles are replaced, each by the double that its own
document gives back; beyond the limit parsing fails. -/
theorem parse_serialize_json :
    (∀ x pretty, ∃ text, (jsonFormat pretty).serialize (.double x) = .ok text ∧
      (jsonFormat pretty).parse text = .ok (.double (reread x))) ∧
    reread Binary64.infinity = Binary64.infinity ∧
    reread Binary64.infinity.neg = Binary64.infinity.neg ∧
    (∀ x, x.isNaN = true → reread x = Binary64.nan) ∧
    ∀ (root : Node) (pretty : Bool), ∃ text,
      (jsonFormat pretty).serialize root = .ok text ∧
      (Json.nesting text ≤ 127 →
        (jsonFormat pretty).parse text = .ok (root.mapDoubles reread)) ∧
      (128 ≤ Json.nesting text →
        ∃ error, (jsonFormat pretty).parse text = .error (.unreadable error)) := by
  refine ⟨?_, ?_, ?_, ?_, ?_⟩
  · intro x pretty
    refine ⟨Interchange.write (styleOf pretty) (.double x), rfl, ?_⟩
    simp only [jsonFormat, parseJson, Interchange.read_write_double, Except.mapError]
  · exact Interchange.reread_of_isInfinite (by decide)
  · exact Interchange.reread_of_isInfinite (by decide)
  · intro x hx
    exact Interchange.reread_of_isNaN hx
  · intro root pretty
    obtain ⟨hfits, hdeep⟩ := Interchange.read_write (styleOf pretty) root
    refine ⟨Interchange.write (styleOf pretty) root, rfl, ?_, ?_⟩
    · intro hnesting
      rw [Interchange.nesting_write] at hnesting
      simp only [jsonFormat, parseJson, hfits hnesting, Interchange.reread_eq_restored,
        Except.mapError]
    · intro hnesting
      rw [Interchange.nesting_write] at hnesting
      obtain ⟨error, herror⟩ := hdeep hnesting
      refine ⟨error, ?_⟩
      simp only [jsonFormat, parseJson, herror, Except.mapError]

end SyntaxDump

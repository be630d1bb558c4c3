import Mathlib.Tactic
import SyntaxDump.Proofs.Interchange.Decode
import SyntaxDump.Proofs.Interchange.Edits

/-!
# The members of trees

The object of a tree has a member for each of its parts.  The table here tells
for every kind of tree what its members are, which of them may be missing and
what the tree is without them, and how the part below a member is replaced.
The objects that are written are those of the table.
-/

namespace SyntaxDump
namespace Interchange

open Json (Value)

/-! ## Values with a member less -/

/-- One object somewhere in a value has a member less. -/
inductive LosesMember : Value → Value → Prop where
  | here {front back member} :
      LosesMember (.object (front ++ member :: back)) (.object (front ++ back))
  | item {front back value value'} : LosesMember value value' →
      LosesMember (.array (front ++ value :: back)) (.array (front ++ value' :: back))
  | member {front back name value value'} : LosesMember value value' →
      LosesMember (.object (front ++ (name, value) :: back))
        (.object (front ++ (name, value') :: back))

theorem not_losesMember_integer (i : Int) (value' : Value) :
    ¬LosesMember (.integer i) value' := nofun

theorem not_losesMember_string (text : String) (value' : Value) :
    ¬LosesMember (.string text) value' := nofun

theorem not_losesMember_bytes (bytes : List UInt8) (value' : Value) :
    ¬LosesMember (.array (bytes.map fun byte => .integer byte.toNat)) value' := by
  intro hloses
  generalize hitems : (bytes.map fun byte => Value.integer byte.toNat) = items at hloses
  cases hloses with
  | @item front back value value' hvalue =>
      have hmem : value ∈ bytes.map fun byte => Value.integer byte.toNat := by
        rw [hitems]
        simp
      obtain ⟨byte, -, rfl⟩ := List.mem_map.mp hmem
      cases hvalue

theorem not_losesMember_doubleValue (x : Binary64) (value' : Value) :
    ¬LosesMember (doubleValue x) value' := by
  rw [doubleValue]
  split_ifs <;> exact nofun

/-! ## Trees by role -/

/-- The trees that are written as values with a role; no tree is written as a
scalar. -/
@[reducible]
def Role.Tree : Role → Type
  | .scalar => Empty
  | .type => TypeDescriptor
  | .node => Node
  | .sequence => List Node
  | .block => Block Node
  | .list role => List role.Tree

namespace Role

def encode : (role : Role) → role.Tree → Value
  | .scalar => Empty.elim
  | .type => encodeType
  | .node => Interchange.encode
  | .sequence => fun nodes => sequenceValue (encodeAll nodes)
  | .block => fun body => .object (encodeBlock body)
  | .list role => fun trees => .array (trees.map role.encode)

/-- The tree that a value is read as, where nodes and types are nested at most
`depth` deep. -/
def decode (depth : Nat) : (role : Role) → Value → Decoded role.Tree
  | .scalar => fun value => wrongType value "tree"
  | .type => typeOf depth
  | .node => nodeOf depth
  | .sequence => sequenceOf (nodeOf depth)
  | .block => blockOf (nodeOf depth)
  | .list role => listOf (role.decode depth)

end Role

/-! ## Members -/

/-- A tree below a member of another one, and what takes its place if it is
replaced. -/
structure Part (ω : Type) where
  role : Role
  tree : role.Tree
  replace : role.Tree → ω

/-- A member of the object of a tree. -/
structure Member (ω : Type) where
  name : String
  value : Value
  /-- the tree without the member, unless it is required -/
  without : Option ω
  /-- the tree that is the value, unless it is a scalar or a list of them -/
  part : Option (Part ω)

namespace Member

variable {ω : Type}

def entry (member : Member ω) : String × Value := (member.name, member.value)

def scalar (name : String) (value : Value) : Member ω := ⟨name, value, none, none⟩

/-- A member whose value is a tree. -/
def branch (name : String) (role : Role) (tree : role.Tree) (without : Option ω)
    (replace : role.Tree → ω) : Member ω :=
  ⟨name, role.encode tree, without, some ⟨role, tree, replace⟩⟩

def required (name : String) (role : Role) (tree : role.Tree) (replace : role.Tree → ω) :
    Member ω :=
  branch name role tree none replace

/-- A list that is empty if it is missing. -/
def defaulted (name : String) (role : Role) (trees : List role.Tree)
    (replace : List role.Tree → ω) : Member ω :=
  branch name (.list role) trees (some (replace [])) replace

end Member

/-- A part that may be absent, and then has no member. -/
def optionalMember {ω : Type} (name : String) (role : Role) (tree : Option role.Tree)
    (replace : Option role.Tree → ω) : List (Member ω) :=
  tree.toList.map fun tree =>
    .branch name role tree (some (replace none)) fun tree => replace (some tree)

def entries {ω : Type} (members : List (Member ω)) : List (String × Value) :=
  members.map Member.entry

theorem entries_append {ω : Type} (front back : List (Member ω)) :
    entries (front ++ back) = entries front ++ entries back :=
  List.map_append

theorem entries_cons {ω : Type} (member : Member ω) (rest : List (Member ω)) :
    entries (member :: rest) = member.entry :: entries rest :=
  rfl

def typeMembers : TypeDescriptor → List (Member TypeDescriptor)
  | .int => []
  | .double => []
  | .string => []
  | .void => []
  | .unspec => []
  | .pointer referenced => [.required "referenced" .type referenced .pointer]
  | .functional inputs output =>
      [.defaulted "inputs" .type inputs fun inputs => .functional inputs output,
        .required "output" .type output (.functional inputs)]

def sequenceMembersTo {ω : Type} (nodes : List Node) (make : List Node → ω) : List (Member ω) :=
  [.defaulted "nodes" .node nodes make]

def blockMembersTo {ω : Type} (body : Block Node) (make : Block Node → ω) : List (Member ω) :=
  optionalMember "declarations" .sequence body.declarations
      (fun declarations => make { body with declarations }) ++
    optionalMember "instructions" .sequence body.instructions
      (fun instructions => make { body with instructions })

def nodeMembers : Node → List (Member Node)
  | .integer value => [.scalar "value" (intValue value)]
  | .double value => [.scalar "value" (doubleValue value)]
  | .string value => [.scalar "value" (.string value)]
  | .nil => []
  | .null => []
  | .data bytes =>
      [⟨"bytes", .array (bytes.map fun byte => .integer byte.toNat), some (.data []), none⟩]
  | .unary op argument =>
      [.scalar "op" (.string op.word), .required "argument" .node argument (.unary op)]
  | .binary op left right =>
      [.scalar "op" (.string op.word),
        .required "left" .node left (fun left => .binary op left right),
        .required "right" .node right (.binary op left)]
  | .var name => [.scalar "name" (.string name)]
  | .index base index =>
      [.required "base" .node base (fun base => .index base index),
        .required "index" .node index (.index base)]
  | .addressOf lvalue => [.required "lvalue" .node lvalue .addressOf]
  | .stackAlloc argument => [.required "argument" .node argument .stackAlloc]
  | .rvalue lvalue => [.required "lvalue" .node lvalue .rvalue]
  | .assignment lvalue rvalue =>
      [.required "lvalue" .node lvalue (fun lvalue => .assignment lvalue rvalue),
        .required "rvalue" .node rvalue (.assignment lvalue)]
  | .sequence nodes => sequenceMembersTo nodes .sequence
  | .block body => blockMembersTo body .block
  | .declaration identifier qualifier type initializer =>
      .scalar "identifier" (.string identifier) :: .scalar "qualifier" (.string qualifier.word) ::
        (optionalMember "type" .type type
            (fun type => .declaration identifier qualifier type initializer) ++
          optionalMember "initializer" .node initializer (.declaration identifier qualifier type))
  | .functionDefinition type arguments body =>
      optionalMember "type" .type type (fun type => .functionDefinition type arguments body) ++
        (optionalMember "arguments" .sequence arguments
            (fun arguments => .functionDefinition type arguments body) ++
          [.required "block" .block body (.functionDefinition type arguments)])
  | .functionCall identifier arguments =>
      optionalMember "identifier" .node identifier
          (fun identifier => .functionCall identifier arguments) ++
        optionalMember "arguments" .sequence arguments (.functionCall identifier)
  | .sizeof expression => [.required "expression" .node expression .sizeof]
  | .ifThen condition block =>
      [.required "condition" .node condition (fun condition => .ifThen condition block),
        .required "block" .node block (.ifThen condition)]
  | .ifElse condition thenBlock elseBlock =>
      [.required "condition" .node condition (fun condition =>
          .ifElse condition thenBlock elseBlock),
        .required "then_block" .node thenBlock (fun thenBlock =>
          .ifElse condition thenBlock elseBlock),
        .required "else_block" .node elseBlock (.ifElse condition thenBlock)]
  | .whileLoop condition block =>
      [.required "condition" .node condition (fun condition => .whileLoop condition block),
        .required "block" .node block (.whileLoop condition)]
  | .ret value => optionalMember "value" .node value .ret
  | .stop level => [.scalar "level" (intValue level)]
  | .next level => [.scalar "level" (intValue level)]
  | .input => []
  | .print arguments => [.required "arguments" .sequence arguments .print]
  | .evaluation argument => [.required "argument" .node argument .evaluation]

def kindOfType : TypeDescriptor → TypeKind
  | .int => .int
  | .double => .double
  | .string => .string
  | .void => .void
  | .unspec => .unspec
  | .pointer _ => .pointer
  | .functional .. => .functional

namespace Role

/-- The member that tells the kind. -/
def tag : (role : Role) → role.Tree → List (String × Value)
  | .type => fun type => [("kind", .string (kindOfType type).word)]
  | .node => fun node => [("kind", .string node.kind.word)]
  | _ => fun _ => []

/-- The other members. -/
def members : (role : Role) → role.Tree → List (Member role.Tree)
  | .type => typeMembers
  | .node => nodeMembers
  | .sequence => fun nodes => sequenceMembersTo nodes id
  | .block => fun body => blockMembersTo body id
  | _ => fun _ => []

end Role

/-! ## The objects that are written -/

theorem encodeType_eq_members (type : TypeDescriptor) :
    encodeType type = tagged (kindOfType type).word (entries (typeMembers type)) := by
  cases type with
  | functional inputs output =>
      rw [encodeType, encodeTypes_eq_map]
      rfl
  | _ => rfl

theorem entries_sequenceMembersTo {ω : Type} (nodes : List Node) (make : List Node → ω) :
    entries (sequenceMembersTo nodes make) = [("nodes", .array (encodeAll nodes))] := by
  rw [encodeAll_eq_map]
  rfl

theorem entries_blockMembersTo {ω : Type} (body : Block Node) (make : Block Node → ω) :
    entries (blockMembersTo body make) = encodeBlock body := by
  obtain ⟨declarations, instructions⟩ := body
  cases declarations <;> cases instructions <;> rfl

theorem encode_eq_members (node : Node) :
    encode node = tagged node.kind.word (entries (nodeMembers node)) := by
  cases node with
  | sequence nodes =>
      rw [nodeMembers, entries_sequenceMembersTo]
      rfl
  | block body =>
      rw [nodeMembers, entries_blockMembersTo]
      rfl
  | declaration identifier qualifier type initializer => cases type <;> cases initializer <;> rfl
  | functionDefinition type arguments body => cases type <;> cases arguments <;> rfl
  | functionCall identifier arguments => cases identifier <;> cases arguments <;> rfl
  | ret value => cases value <;> rfl
  | _ => rfl

namespace Role

/-- A tree is written as an object with a kind, if it has one, and the members
of the table, or as a list of trees. -/
theorem encode_cases (role : Role) (tree : role.Tree) :
    role.encode tree = .object (role.tag tree ++ entries (role.members tree)) ∨
      ∃ item, role = .list item := by
  cases role with
  | scalar => exact tree.elim
  | type => exact .inl (encodeType_eq_members tree)
  | node => exact .inl (encode_eq_members tree)
  | sequence => exact .inl (congrArg Value.object (entries_sequenceMembersTo tree id).symm)
  | block => exact .inl (congrArg Value.object (entries_blockMembersTo tree id).symm)
  | list item => exact .inr ⟨item, rfl⟩

theorem tag_cases (role : Role) (tree : role.Tree) :
    role.tag tree = [] ∨ ∃ word, role.tag tree = [("kind", .string word)] := by
  cases role with
  | type => exact .inr ⟨_, rfl⟩
  | node => exact .inr ⟨_, rfl⟩
  | _ => exact .inl rfl

theorem encode_eq_of_tag_ne_nil (role : Role) {tree : role.Tree} (htag : role.tag tree ≠ []) :
    role.encode tree = .object (role.tag tree ++ entries (role.members tree)) := by
  rcases role.encode_cases tree with hencode | ⟨item, rfl⟩
  · exact hencode
  · exact absurd rfl htag

theorem encode_eq_of_mem (role : Role) {tree : role.Tree} {member : Member role.Tree}
    (hmember : member ∈ role.members tree) :
    role.encode tree = .object (role.tag tree ++ entries (role.members tree)) := by
  rcases role.encode_cases tree with hencode | ⟨item, rfl⟩
  · exact hencode
  · cases hmember

theorem encode_eq_object {role : Role} {tree : role.Tree} {found : List (String × Value)}
    (hobject : role.encode tree = .object found) :
    found = role.tag tree ++ entries (role.members tree) := by
  rcases role.encode_cases tree with hencode | ⟨item, rfl⟩
  · exact Value.object.inj (hobject.symm.trans hencode)
  · cases hobject

theorem encode_ne_null (role : Role) (tree : role.Tree) : role.encode tree ≠ .null := by
  rcases role.encode_cases tree with hencode | ⟨item, rfl⟩
  · rw [hencode]
    exact nofun
  · exact nofun

end Role

/-! ## What the table says about a tree -/

/-- The member belongs to the object of the tree, and its part is the one that
is replaced. -/
structure Member.Fits {ω : Type} (member : Member ω) (whole : ω) : Prop where
  name : member.name ≠ "kind"
  value : ∀ part ∈ member.part, member.value = part.role.encode part.tree
  same : ∀ part ∈ member.part, ∀ tree, part.replace tree = whole ↔ tree = part.tree
  flat : member.part = none → ∀ value', ¬LosesMember member.value value'

section

variable {ω : Type} {whole : ω} {name : String}

theorem fits_scalar (hname : name ≠ "kind") {value : Value}
    (hflat : ∀ value', ¬LosesMember value value') : (Member.scalar name value).Fits whole where
  name := hname
  value := nofun
  same := nofun
  flat _ := hflat

theorem fits_branch (hname : name ≠ "kind") {role : Role} {tree : role.Tree} {without : Option ω}
    {replace : role.Tree → ω} (hreplace : ∀ other, replace other = whole ↔ other = tree) :
    (Member.branch name role tree without replace).Fits whole where
  name := hname
  value := by
    rintro part ⟨⟩
    rfl
  same := by
    rintro part ⟨⟩
    exact hreplace
  flat := nofun

end

section

attribute [local simp] fits_scalar fits_branch not_losesMember_integer not_losesMember_string
  not_losesMember_doubleValue intValue Member.required Member.defaulted optionalMember

theorem fits_typeMembers (type : TypeDescriptor) :
    ∀ member ∈ typeMembers type, member.Fits type := by
  cases type <;> simp [typeMembers]

theorem fits_sequenceMembersTo {ω : Type} {whole : ω} {nodes : List Node} {make : List Node → ω}
    (hmake : ∀ other, make other = whole ↔ other = nodes) :
    ∀ member ∈ sequenceMembersTo nodes make, member.Fits whole := by
  simp [sequenceMembersTo, hmake]

theorem fits_blockMembersTo {ω : Type} {whole : ω} {body : Block Node} {make : Block Node → ω}
    (hmake : ∀ other, make other = whole ↔ other = body) :
    ∀ member ∈ blockMembersTo body make, member.Fits whole := by
  obtain ⟨declarations, instructions⟩ := body
  cases declarations <;> cases instructions <;> simp [blockMembersTo, hmake]

theorem fits_nodeMembers (node : Node) : ∀ member ∈ nodeMembers node, member.Fits node := by
  cases node with
  | data bytes => 
    have hname : "bytes" ≠ "kind" := by decide
    intro member hmember
    obtain rfl := List.mem_singleton.mp hmember
    exact ⟨hname, nofun, nofun, fun _ => not_losesMember_bytes bytes⟩
  | sequence nodes => exact fits_sequenceMembersTo (by simp)
  | block body => exact fits_blockMembersTo (by simp)
  | declaration identifier qualifier type initializer =>
      cases type <;> cases initializer <;> simp [nodeMembers]
  | functionDefinition type arguments body => cases type <;> cases arguments <;> simp [nodeMembers]
  | functionCall identifier arguments =>
      cases identifier <;> cases arguments <;> simp [nodeMembers]
  | ret value => cases value <;> simp [nodeMembers]
  | _ => simp [nodeMembers]

end

theorem Role.fits_members (role : Role) (tree : role.Tree) :
    ∀ member ∈ role.members tree, member.Fits tree := by
  cases role with
  | type => exact fits_typeMembers tree
  | node => exact fits_nodeMembers tree
  | sequence => exact fits_sequenceMembersTo fun _ => Iff.rfl
  | block => exact fits_blockMembersTo fun _ => Iff.rfl
  | _ => exact nofun

section

attribute [local simp] Member.scalar Member.branch Member.required Member.defaulted optionalMember

theorem nodup_typeMembers (type : TypeDescriptor) :
    ((typeMembers type).map Member.name).Nodup := by
  cases type <;> simp [typeMembers]

theorem nodup_blockMembersTo {ω : Type} (body : Block Node) (make : Block Node → ω) :
    ((blockMembersTo body make).map Member.name).Nodup := by
  obtain ⟨declarations, instructions⟩ := body
  cases declarations <;> cases instructions <;> simp [blockMembersTo]

theorem nodup_nodeMembers (node : Node) : ((nodeMembers node).map Member.name).Nodup := by
  cases node with
  | sequence nodes => simp [nodeMembers, sequenceMembersTo]
  | block body => exact nodup_blockMembersTo body _
  | declaration identifier qualifier type initializer =>
      cases type <;> cases initializer <;> simp [nodeMembers]
  | functionDefinition type arguments body => cases type <;> cases arguments <;> simp [nodeMembers]
  | functionCall identifier arguments =>
      cases identifier <;> cases arguments <;> simp [nodeMembers]
  | ret value => cases value <;> simp [nodeMembers]
  | _ => simp [nodeMembers]

end

theorem Role.nodup_members (role : Role) (tree : role.Tree) :
    ((role.members tree).map Member.name).Nodup := by
  cases role with
  | type => exact nodup_typeMembers tree
  | node => exact nodup_nodeMembers tree
  | sequence => exact List.nodup_singleton _
  | block => exact nodup_blockMembersTo tree id
  | _ => exact List.nodup_nil

end Interchange
end SyntaxDump

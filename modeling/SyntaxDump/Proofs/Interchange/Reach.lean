import Mathlib.Tactic
import SyntaxDump.Proofs.Interchange.Documents
import SyntaxDump.Proofs.Tag.Levels
import SyntaxDump.Proofs.Tag.Pending

/-!
# How far the dump of a document reaches

A dump fails at a line that is too far to the right.  The trees of documents are not
deep enough for that: every node puts its children a few columns to the right, and
the nodes of a document are nested within the limit.  What the children of a node
are is not read off the values that it is decoded from, but follows from the records
alone: a record consists of what its fields have been decoded to.
-/

namespace SyntaxDump
namespace Interchange

open Json (Value)

/-! ## What records consist of -/

/-- Whatever is decoded has the property. -/
def Grants {α : Type} (decode : Value → Decoded α) (p : α → Prop) : Prop :=
  ∀ value a, decode value = .ok a → p a

/-- Whatever the record is read from, the result has the property. -/
structure Record.Grants {σ α : Type} (record : Record σ α) (found : σ → Prop) (p : α → Prop) :
    Prop where
  start : found record.start
  store : ∀ {state key value next}, found state → record.store state key value = .ok (some next) →
    found next
  finish : ∀ {state a}, found state → record.finish state = .ok a → p a
  take : ∀ {expected index items a rest}, record.take expected index items = .ok (a, rest) → p a

section Records

variable {σ τ α β : Type} {p : α → Prop} {q : β → Prop}

theorem grants_any (decode : Value → Decoded α) : Grants decode fun _ => True :=
  fun _ _ _ => trivial

theorem Grants.field {decode : Value → Decoded α} (hdecode : Grants decode p) {name : String}
    {absent : Option α} (habsent : ∀ a ∈ absent, p a) :
    (Record.field name decode absent).Grants (fun state => ∀ a ∈ state, p a) p where
  start := nofun
  store := by
    intro state key value next _ hstore
    simp only [Record.field] at hstore
    split_ifs at hstore with hkey
    · cases state with
      | some a => cases hstore
      | none =>
          obtain ⟨a, ha, hnext⟩ := map_ok_iff.mp hstore
          obtain rfl := Option.some.inj hnext
          rintro _ ⟨⟩
          exact hdecode _ _ ha
    · cases hstore
  finish := by
    intro state a hstate hfinish
    cases state with
    | some found =>
        cases hfinish
        exact hstate _ rfl
    | none =>
        cases absent with
        | some default =>
            cases hfinish
            exact habsent _ rfl
        | none => cases hfinish
  take := by
    intro expected index items a rest htake
    cases items with
    | cons item items =>
        obtain ⟨found, hfound, hdone⟩ := map_ok_iff.mp htake
        cases hdone
        exact hdecode _ _ hfound
    | nil =>
        cases absent with
        | some default =>
            cases htake
            exact habsent _ rfl
        | none => cases htake

namespace Record.Grants

variable {first : Record σ α} {second : Record τ β} {s : σ → Prop} {t : τ → Prop}

theorem and (hfirst : first.Grants s p) (hsecond : second.Grants t q) :
    (first.and second).Grants (fun state => s state.1 ∧ t state.2) fun a => p a.1 ∧ q a.2 where
  start := ⟨hfirst.start, hsecond.start⟩
  store := by
    intro state key value next hstate hstore
    simp only [Record.and, bind_ok_iff] at hstore
    obtain ⟨found, hleft, hrest⟩ := hstore
    cases found with
    | some left =>
        cases hrest
        exact ⟨hfirst.store hstate.1 hleft, hstate.2⟩
    | none =>
        obtain ⟨found, hright, hdone⟩ := bind_ok_iff.mp hrest
        cases found with
        | some right =>
            cases hdone
            exact ⟨hstate.1, hsecond.store hstate.2 hright⟩
        | none => cases hdone
  finish := by
    intro state result hstate hfinish
    simp only [Record.and, bind_ok_iff] at hfinish
    obtain ⟨a, ha, b, hb, hdone⟩ := hfinish
    cases hdone
    exact ⟨hfirst.finish hstate.1 ha, hsecond.finish hstate.2 hb⟩
  take := by
    intro expected index items result rest htake
    simp only [Record.and, bind_ok_iff] at htake
    obtain ⟨⟨a, _⟩, ha, ⟨b, _⟩, hb, hdone⟩ := htake
    cases hdone
    exact ⟨hfirst.take ha, hsecond.take hb⟩

theorem storeAll (hrecord : first.Grants s p) {state next : σ} {members : List (String × Value)}
    (hstate : s state) (hstore : first.storeAll state members = .ok next) : s next := by
  induction members generalizing state with
  | nil =>
      cases hstore
      exact hstate
  | cons member members ih =>
      simp only [Record.storeAll, bind_ok_iff] at hstore
      obtain ⟨found, hfound, hrest⟩ := hstore
      cases found with
      | some found => exact ih (hrecord.store hstate hfound) hrest
      | none => exact ih hstate hrest

theorem read (hrecord : first.Grants s p) {subject : String} {content : Content} {a : α}
    (hread : first.read subject content = .ok a) : p a := by
  cases content with
  | members members =>
      obtain ⟨state, hstore, hfinish⟩ := bind_ok_iff.mp hread
      exact hrecord.finish (hrecord.storeAll hrecord.start hstore) hfinish
  | items items =>
      obtain ⟨⟨found, rest⟩, htake, hdone⟩ := bind_ok_iff.mp hread
      simp only at hdone
      split_ifs at hdone
      cases hdone
      exact hrecord.take htake

end Record.Grants

theorem Grants.decodeAll {decode : Value → Decoded α} (hdecode : Grants decode p)
    {items : List Value} {results : List α} (hresults : decodeAll decode items = .ok results) :
    ∀ a ∈ results, p a := by
  induction items generalizing results with
  | nil =>
      cases hresults
      exact nofun
  | cons item items ih =>
      simp only [Interchange.decodeAll, bind_ok_iff] at hresults
      obtain ⟨a, ha, rest, hrest, hdone⟩ := hresults
      cases hdone
      exact List.forall_mem_cons.mpr ⟨hdecode _ _ ha, ih hrest⟩

theorem Grants.listOf {decode : Value → Decoded α} (hdecode : Grants decode p) :
    Grants (listOf decode) fun results => ∀ a ∈ results, p a := by
  intro value results hresults
  cases value with
  | array items => exact hdecode.decodeAll hresults
  | _ => cases hresults

theorem Grants.optionOf {decode : Value → Decoded α} (hdecode : Grants decode p) :
    Grants (optionOf decode) fun result => ∀ a ∈ result, p a := by
  intro value result hresult
  by_cases hnull : value = .null
  · subst hnull
    cases hresult
    exact nofun
  · rw [optionOf_of_ne_null decode hnull] at hresult
    obtain ⟨a, ha, rfl⟩ := map_ok_iff.mp hresult
    rintro _ ⟨⟩
    exact hdecode _ _ ha

end Records

section Nodes

variable {node : Value → Decoded Node} {p : Node → Prop}

theorem Grants.sequenceRecord (hnode : Grants node p) :
    (sequenceRecord node).Grants (fun state => ∀ nodes ∈ state, ∀ child ∈ nodes, p child)
      fun nodes => ∀ child ∈ nodes, p child :=
  hnode.listOf.field (by simp)

theorem Grants.sequenceOf (hnode : Grants node p) :
    Grants (sequenceOf node) fun nodes => ∀ child ∈ nodes, p child := by
  intro value nodes hnodes
  obtain ⟨content, -, hread⟩ := bind_ok_iff.mp hnodes
  exact hnode.sequenceRecord.read hread

/-- All nodes of a block have the property. -/
def BlockHas (p : Node → Prop) (body : Block Node) : Prop :=
  (∀ nodes ∈ body.declarations, ∀ child ∈ nodes, p child) ∧
    ∀ nodes ∈ body.instructions, ∀ child ∈ nodes, p child

theorem Grants.blockOfContent (hnode : Grants node p) {content : Content} {body : Block Node}
    (hbody : blockOfContent node content = .ok body) : BlockHas p body := by
  obtain ⟨⟨declarations, instructions⟩, hparts, rfl⟩ := map_ok_iff.mp hbody
  have hsequence := hnode.sequenceOf.optionOf
  exact ((hsequence.field (by simp)).and (hsequence.field (by simp))).read hparts

theorem Grants.blockOf (hnode : Grants node p) : Grants (blockOf node) (BlockHas p) := by
  intro value body hbody
  obtain ⟨content, -, hread⟩ := bind_ok_iff.mp hbody
  exact hnode.blockOfContent hread

end Nodes

/-! ## Layouts -/

/-- A part of a layout does not stand behind this column, and if it is a child, it has
the property. -/
def Within (p : Node → Prop) (bound : Nat) : Tag.Part → Prop
  | .line line => line.level ≤ bound
  | .child node level => p node ∧ level ≤ bound

section Within

variable {p : Node → Prop} {bound level : Nat}

@[simp] theorem within_line {mark : Tag.Mark} :
    Within p bound (.line ⟨level, mark⟩) ↔ level ≤ bound := Iff.rfl

@[simp] theorem within_child {node : Node} :
    Within p bound (.child node level) ↔ p node ∧ level ≤ bound := Iff.rfl

theorem within_enclosed {name : String} {parts : List Tag.Part} (hlevel : level ≤ bound)
    (hparts : ∀ part ∈ parts, Within p bound part) :
    ∀ part ∈ Tag.enclosed level name parts, Within p bound part := by
  simpa [Tag.enclosed, or_imp, forall_and, hlevel] using hparts

theorem within_sequenceLayout {nodes : List Node} (hlevel : level + 2 ≤ bound)
    (hnodes : ∀ node ∈ nodes, p node) :
    ∀ part ∈ Tag.sequenceLayout level nodes, Within p bound part := by
  have hle : level ≤ bound := by omega
  simpa [Tag.sequenceLayout, or_imp, forall_and, hlevel, hle] using hnodes

theorem within_sequenceLayout? {nodes : Option (List Node)} (hlevel : level + 2 ≤ bound)
    (hnodes : ∀ known ∈ nodes, ∀ node ∈ known, p node) :
    ∀ part ∈ Tag.sequenceLayout? level nodes, Within p bound part := by
  cases nodes with
  | none => exact nofun
  | some nodes => exact within_sequenceLayout hlevel (hnodes nodes rfl)

theorem within_blockLayout {body : Block Node} (hlevel : level + 6 ≤ bound)
    (hbody : BlockHas p body) :
    ∀ part ∈ Tag.blockLayout level body, Within p bound part := by
  refine within_enclosed (by omega) (List.forall_mem_append.mpr ⟨?_, ?_⟩)
  · exact within_enclosed (by omega) (within_sequenceLayout? hlevel hbody.1)
  · exact within_enclosed (by omega) (within_sequenceLayout? hlevel hbody.2)

theorem within_optionLayout {node : Option Node} (hlevel : level ≤ bound)
    (hnode : ∀ known ∈ node, p known) :
    ∀ part ∈ Tag.optionLayout level node, Within p bound part := by
  cases node with
  | none => exact nofun
  | some node => simpa [Tag.optionLayout, hlevel] using hnode

theorem within_calleeLayout {node : Option Node} (hlevel : level ≤ bound)
    (hnode : ∀ known ∈ node, p known) :
    ∀ part ∈ Tag.calleeLayout level node, Within p bound part := by
  cases node with
  | none => exact within_enclosed hlevel nofun
  | some node => simpa [Tag.calleeLayout, hlevel] using hnode

end Within

/-- How much further to the right the children of a node may stand; those of a function
stand in the sequences of its block. -/
def childOffset : Nat := 10

/-- The layout of a node that is decoded from a content has nothing in it but lines and
decoded nodes. -/
theorem within_layout {node : Value → Decoded Node} {type : Value → Decoded TypeDescriptor}
    {p : Node → Prop} (hnode : Grants node p) (kind : Kind) {content : Content} {root : Node}
    (hroot : nodeOfContent node type kind content = .ok root) (level : Nat) :
    ∀ part ∈ Tag.layout root level, Within p (level + childOffset) part := by
  have hfield {name : String} : (Record.required name node).Grants _ p := hnode.field (by simp)
  have hany {α : Type} {name : String} (decode : Value → Decoded α) (absent : Option α) :
      (Record.field name decode absent).Grants _ fun _ => True :=
    (grants_any decode).field fun _ _ => trivial
  cases kind with
  | nil | null | input =>
      obtain ⟨_, -, rfl⟩ := map_ok_iff.mp hroot
      exact within_enclosed (Nat.le_add_right _ _) (by simp)
  | integer | double | string | var | stop | next | data =>
      obtain ⟨_, -, rfl⟩ := map_ok_iff.mp hroot
      simp [Tag.layout]
  | addressOf | stackAlloc | rvalue | sizeof | evaluation =>
      obtain ⟨child, hchild, rfl⟩ := map_ok_iff.mp hroot
      simp [Tag.layout, Tag.enclosed, childOffset, hfield.read hchild]
  | unary =>
      obtain ⟨⟨op, argument⟩, hparts, rfl⟩ := map_ok_iff.mp hroot
      simp [Tag.layout, Tag.enclosed, childOffset, (((hany _ _).and hfield).read hparts).2]
  | binary =>
      obtain ⟨⟨op, left, right⟩, hparts, rfl⟩ := map_ok_iff.mp hroot
      obtain ⟨-, hleft, hright⟩ := ((hany _ _).and (hfield.and hfield)).read hparts
      simp [Tag.layout, Tag.enclosed, childOffset, hleft, hright]
  | index | assignment | ifThen | whileLoop =>
      obtain ⟨⟨left, right⟩, hparts, rfl⟩ := map_ok_iff.mp hroot
      obtain ⟨hleft, hright⟩ := (hfield.and hfield).read hparts
      simp [Tag.layout, Tag.enclosed, childOffset, hleft, hright]
  | ifElse =>
      obtain ⟨⟨condition, thenBlock, elseBlock⟩, hparts, rfl⟩ := map_ok_iff.mp hroot
      obtain ⟨hcondition, hthen, helse⟩ := (hfield.and (hfield.and hfield)).read hparts
      simp [Tag.layout, Tag.enclosed, childOffset, hcondition, hthen, helse]
  | sequence =>
      obtain ⟨nodes, hnodes, rfl⟩ := map_ok_iff.mp hroot
      exact within_sequenceLayout (by simp [childOffset]) (hnode.sequenceRecord.read hnodes)
  | block =>
      obtain ⟨body, hbody, rfl⟩ := map_ok_iff.mp hroot
      exact within_blockLayout (by simp [childOffset]) (hnode.blockOfContent hbody)
  | declaration =>
      obtain ⟨⟨_, _, _, initializer⟩, hparts, rfl⟩ := map_ok_iff.mp hroot
      obtain ⟨-, -, -, hinitializer⟩ := ((hany _ _).and ((hany _ _).and ((hany _ _).and
        (hnode.optionOf.field (by simp))))).read hparts
      refine List.forall_mem_cons.mpr ⟨by simp, List.forall_mem_append.mpr ⟨?_, by simp⟩⟩
      exact within_enclosed (Nat.le_add_right _ _)
        (within_optionLayout (by simp [childOffset]) hinitializer)
  | functionDefinition =>
      obtain ⟨⟨_, arguments, body⟩, hparts, rfl⟩ := map_ok_iff.mp hroot
      obtain ⟨-, harguments, hbody⟩ := ((hany _ _).and
        ((hnode.sequenceOf.optionOf.field (by simp)).and
          (hnode.blockOf.field (by simp)))).read hparts
      refine List.forall_mem_cons.mpr ⟨by simp, List.forall_mem_append.mpr
        ⟨List.forall_mem_append.mpr ⟨?_, ?_⟩, by simp⟩⟩
      · exact within_enclosed (by simp [childOffset])
          (within_sequenceLayout? (by simp [childOffset]) harguments)
      · exact within_enclosed (by simp [childOffset])
          (within_blockLayout (by simp [childOffset]) hbody)
  | functionCall =>
      obtain ⟨⟨identifier, arguments⟩, hparts, rfl⟩ := map_ok_iff.mp hroot
      obtain ⟨hidentifier, harguments⟩ := ((hnode.optionOf.field (by simp)).and
        (hnode.sequenceOf.optionOf.field (by simp))).read hparts
      refine within_enclosed (Nat.le_add_right _ _) (List.forall_mem_append.mpr ⟨?_, ?_⟩)
      · exact within_enclosed (by simp [childOffset])
          (within_calleeLayout (by simp [childOffset]) hidentifier)
      · exact within_enclosed (by simp [childOffset])
          (within_sequenceLayout? (by simp [childOffset]) harguments)
  | ret =>
      obtain ⟨value, hvalue, rfl⟩ := map_ok_iff.mp hroot
      exact within_enclosed (Nat.le_add_right _ _) (within_optionLayout (by simp [childOffset])
        ((hnode.optionOf.field (by simp)).read hvalue))
  | print =>
      obtain ⟨arguments, harguments, rfl⟩ := map_ok_iff.mp hroot
      exact within_enclosed (Nat.le_add_right _ _) (within_sequenceLayout (by simp [childOffset])
        ((hnode.sequenceOf.field (by simp)).read harguments))

/-! ## Dumps -/

/-- All lines of a tree stand in these columns. -/
def Reaches (offset : Nat) (root : Node) : Prop :=
  ∀ level, ∀ line ∈ Tag.lines root level, line.level ≤ level + offset

theorem reaches_of_content {node : Value → Decoded Node} {type : Value → Decoded TypeDescriptor}
    {offset : Nat} (hnode : Grants node (Reaches offset)) {kind : Kind} {content : Content}
    {root : Node} (hroot : nodeOfContent node type kind content = .ok root) :
    Reaches (offset + childOffset) root := by
  intro level line hline
  rw [Tag.lines_eq_layout, Tag.partLines, List.mem_flatMap] at hline
  obtain ⟨part, hpart, hline⟩ := hline
  have hwithin := within_layout hnode kind hroot level part hpart
  cases part with
  | line own =>
      obtain rfl := List.mem_singleton.mp hline
      have hown : line.level ≤ level + childOffset := hwithin
      omega
  | child child inner =>
      obtain ⟨hchild, hinner⟩ := hwithin
      have hlevel := hchild inner line hline
      omega

theorem reaches_nodeOf (depth : Nat) : Grants (nodeOf depth) (Reaches (depth * childOffset)) := by
  induction depth with
  | zero =>
      intro value root hroot
      cases hroot
  | succ depth ih =>
      intro value root hroot
      obtain ⟨⟨kind, content⟩, -, hcontent⟩ := bind_ok_iff.mp hroot
      rw [Nat.succ_mul]
      exact reaches_of_content ih hcontent

theorem Reaches.dump? {offset level : Nat} {root : Node} (hroot : Reaches offset root)
    (hlevel : level + offset ≤ Tag.maxLevel) :
    Tag.dump? root level = some (Tag.linesText (Tag.lines root level)) := by
  rw [Tag.dump?, if_pos]
  rw [List.all_eq_true]
  intro line hline
  exact decide_eq_true ((hroot level line hline).trans hlevel)

/-- How far the dump of a document may reach to the right of its root. -/
def documentReach : Nat := (Json.maxDepth + 1) * childOffset

example : 0 + documentReach ≤ Tag.maxLevel := by decide

end Interchange

/-- Every document has a dump, at any level that leaves this room. -/
theorem reaches_of_parseJson {source : String} {root : Node}
    (hsource : parseJson source = .ok root) :
    Interchange.Reaches Interchange.documentReach root := by
  obtain ⟨value, -, -, kind, content, -, hcontent⟩ := parseJson_eq_ok.mp hsource
  rw [Interchange.documentReach, Nat.succ_mul]
  exact Interchange.reaches_of_content (Interchange.reaches_nodeOf _) hcontent

end SyntaxDump

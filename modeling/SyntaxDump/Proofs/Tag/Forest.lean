import Mathlib.Tactic
import SyntaxDump.Proofs.Syntax.Tree
import SyntaxDump.Tag.Dump

/-!
# A dump as a forest of tags

The lines of a dump are those of a forest whose elements are either a line of
their own or an opening and a closing line around other elements.  A walk
writes opening and closing lines one by one; that they match is a property of
the forest by its form, so that what a dump has to do with its tree can be read
off the forest.
-/

namespace SyntaxDump
namespace Tag

/-- A tag with what stands in it. -/
inductive Element where
  | leaf (level : Nat) (name text : String)
  | branch (level : Nat) (name : String) (attributes : List (String × String))
      (children : List Element)
deriving Repr, Inhabited

namespace Element

@[elab_as_elim]
theorem nestedInduction {motive : Element → Prop}
    (leaf : ∀ level name text, motive (.leaf level name text))
    (branch : ∀ level name attributes children, (∀ child ∈ children, motive child) →
      motive (.branch level name attributes children))
    (element : Element) : motive element := by
  refine @Element.rec motive (fun elements => ∀ element ∈ elements, motive element)
    leaf branch ?_ ?_ element
  · simp
  · intro element elements helement helements other hother
    rcases List.mem_cons.mp hother with heq | hmem
    · subst heq
      exact helement
    · exact helements other hmem

def level : Element → Nat
  | .leaf level _ _ => level
  | .branch level _ _ _ => level

def name : Element → String
  | .leaf _ name _ => name
  | .branch _ name _ _ => name

mutual
def lines : Element → List Line
  | .leaf level name text => [⟨level, .inline name text⟩]
  | .branch level name attributes children =>
      ⟨level, .opening name attributes⟩ :: (linesAll children ++ [⟨level, .closing name⟩])
def linesAll : List Element → List Line
  | [] => []
  | element :: elements => element.lines ++ linesAll elements
end

@[simp] theorem linesAll_append (front back : List Element) :
    linesAll (front ++ back) = linesAll front ++ linesAll back := by
  induction front with
  | nil => rfl
  | cons element front ih => simp [linesAll, ih]

end Element

/-! ## The forest of a tree -/

def bare (level : Nat) (name : String) (children : List Element) : Element :=
  .branch level name [] children

def sequenceElement (level size : Nat) (children : List Element) : Element :=
  .branch level "sequence_node" [("size", Decimal.natText size)] children

def blockElement (level : Nat) (declarations instructions : List Element) : Element :=
  bare level "block_node"
    [bare (level + 2) "declarations" declarations, bare (level + 2) "instructions" instructions]

def recursiveElement (level : Nat) : Element := bare level "recursive" []

mutual
/-- The forest of a node: a single element, or nothing at all for data. -/
def forest : Node → Nat → List Element
  | node@(.integer value), level =>
      [.leaf level node.label (Decimal.integerText value.toInt)]
  | node@(.double value), level => [.leaf level node.label (doubleText value)]
  | node@(.string value), level => [.leaf level node.label value]
  | node@(.nil), level => [bare level node.label []]
  | node@(.null), level => [bare level node.label []]
  | .data _, _ => []
  | node@(.unary _ argument), level => [bare level node.label (forest argument (level + 2))]
  | node@(.binary _ left right), level =>
      [bare level node.label (forest left (level + 2) ++ forest right (level + 2))]
  | node@(.var name), level => [.leaf level node.label name]
  | node@(.index base index), level =>
      [bare level node.label (forest base (level + 4) ++ forest index (level + 4))]
  | node@(.addressOf lvalue), level => [bare level node.label (forest lvalue (level + 4))]
  | node@(.stackAlloc argument), level => [bare level node.label (forest argument (level + 4))]
  | node@(.rvalue lvalue), level => [bare level node.label (forest lvalue (level + 4))]
  | node@(.assignment lvalue rvalue), level =>
      [bare level node.label (forest lvalue level ++ forest rvalue (level + 4))]
  | .sequence nodes, level => [sequenceElement level nodes.length (forestAll nodes (level + 2))]
  | .block body, level => [forestBlock body level]
  | node@(.declaration identifier qualifier type initializer), level =>
      [.branch level node.label
        [("name", identifier), ("qualifier", qualifier.name), ("type", typeAttribute type)]
        [bare level "initializer" (forestOption initializer (level + 4))]]
  | node@(.functionDefinition type arguments body), level =>
      [.branch level node.label [("type", typeAttribute type)]
        [bare (level + 2) "arguments" (forestSequence? arguments (level + 4)),
          bare (level + 2) "block" [forestBlock body (level + 4)]]]
  | node@(.functionCall identifier arguments), level =>
      [bare level node.label
        [bare (level + 2) "identifier" (forestCallee identifier (level + 4)),
          bare (level + 2) "arguments" (forestSequence? arguments (level + 4))]]
  | node@(.sizeof expression), level => [bare level node.label (forest expression (level + 4))]
  | node@(.ifThen condition block), level =>
      [bare level node.label
        [bare (level + 2) "condition" (forest condition (level + 4)),
          bare (level + 2) "then" (forest block (level + 4))]]
  | node@(.ifElse condition thenBlock elseBlock), level =>
      [bare level node.label
        [bare (level + 2) "condition" (forest condition (level + 4)),
          bare (level + 2) "then" (forest thenBlock (level + 4)),
          bare (level + 2) "else" (forest elseBlock (level + 4))]]
  | node@(.whileLoop condition block), level =>
      [bare level node.label
        [bare (level + 2) "condition" (forest condition (level + 4)),
          bare (level + 2) "block" (forest block (level + 4))]]
  | node@(.ret value), level => [bare level node.label (forestOption value (level + 4))]
  | node@(.stop depth), level =>
      [.branch level node.label [("level", Decimal.integerText depth.toInt)] []]
  | node@(.next depth), level =>
      [.branch level node.label [("level", Decimal.integerText depth.toInt)] []]
  | node@(.input), level => [bare level node.label []]
  | node@(.print arguments), level =>
      [bare level node.label
        [sequenceElement (level + 2) arguments.length (forestAll arguments (level + 4))]]
  | node@(.evaluation argument), level => [bare level node.label (forest argument (level + 2))]
def forestAll : List Node → Nat → List Element
  | [], _ => []
  | node :: nodes, level => forest node level ++ forestAll nodes level
def forestOption : Option Node → Nat → List Element
  | none, _ => []
  | some node, level => forest node level
def forestCallee : Option Node → Nat → List Element
  | none, level => [recursiveElement level]
  | some node, level => forest node level
def forestSequence? : Option (List Node) → Nat → List Element
  | none, _ => []
  | some nodes, level => [sequenceElement level nodes.length (forestAll nodes (level + 2))]
def forestBlock : Block Node → Nat → Element
  | ⟨declarations, instructions⟩, level =>
      blockElement level (forestSequence? declarations (level + 4))
        (forestSequence? instructions (level + 4))
end

/-! ## The lines of the walk -/

def eventLines (events : List Event) : List Line := events.filterMap Event.line?

section

variable (level : Nat) (name : String) (events : List Event)

@[simp] theorem eventLines_nil : eventLines [] = [] := rfl

@[simp] theorem eventLines_visiting : eventLines (.visiting name level :: events) =
    eventLines events := rfl

@[simp] theorem eventLines_settled : eventLines (.settled :: events) = eventLines events := rfl

@[simp] theorem eventLines_line (line : Line) :
    eventLines (.line line :: events) = line :: eventLines events := rfl

@[simp] theorem eventLines_append (front back : List Event) :
    eventLines (front ++ back) = eventLines front ++ eventLines back :=
  List.filterMap_append

@[simp] theorem eventLines_wrapped : eventLines (wrapped level name events) =
    ⟨level, .opening name []⟩ :: (eventLines events ++ [⟨level, .closing name⟩]) := by
  simp [wrapped, openAt, closeAt]

@[simp] theorem eventLines_sequenced (size : Nat) : eventLines (sequenced level size events) =
    ⟨level, .opening "sequence_node" [("size", Decimal.natText size)]⟩ ::
      (eventLines events ++ [⟨level, .closing "sequence_node"⟩]) := by
  simp [sequenced, openWith, closeAt]

end

/-- Does the walk over a node write the lines of its forest? -/
def WalksForest (node : Node) : Prop :=
  ∀ level, eventLines (walk node level) = Element.linesAll (forest node level)

theorem eventLines_walkAll {nodes : List Node} (hnodes : ∀ node ∈ nodes, WalksForest node)
    (level : Nat) :
    eventLines (walkAll nodes level) = Element.linesAll (forestAll nodes level) := by
  induction nodes with
  | nil => rfl
  | cons node nodes ih =>
      have hnode := hnodes node (by simp) level
      have htail := ih fun other hmem => hnodes other (List.mem_cons_of_mem _ hmem)
      rw [walkAll, forestAll, eventLines_append, Element.linesAll_append, hnode, htail]

theorem eventLines_walkOption {node : Option Node} (hnode : ∀ known ∈ node, WalksForest known)
    (level : Nat) :
    eventLines (walkOption node level) = Element.linesAll (forestOption node level) := by
  cases node with
  | none => rfl
  | some node => exact hnode node rfl level

theorem eventLines_walkSequence? {nodes : Option (List Node)}
    (hnodes : ∀ known ∈ nodes, ∀ node ∈ known, WalksForest node) (level : Nat) :
    eventLines (walkSequence? nodes level) = Element.linesAll (forestSequence? nodes level) := by
  cases nodes with
  | none => rfl
  | some nodes =>
      simp [walkSequence?, forestSequence?, sequenceElement, Element.linesAll, Element.lines,
        eventLines_walkAll (hnodes nodes rfl)]

theorem eventLines_walkBlock {declarations instructions : Option (List Node)}
    (hdeclarations : ∀ known ∈ declarations, ∀ node ∈ known, WalksForest node)
    (hinstructions : ∀ known ∈ instructions, ∀ node ∈ known, WalksForest node) (level : Nat) :
    eventLines (walkBlock ⟨declarations, instructions⟩ level) =
      (forestBlock ⟨declarations, instructions⟩ level).lines := by
  simp [walkBlock, forestBlock, blocked, blockElement, bare, Element.linesAll, Element.lines,
    eventLines_walkSequence? hdeclarations, eventLines_walkSequence? hinstructions]

section

attribute [local simp] walk forest inlineAt openAt openWith closeAt bare Element.linesAll
  Element.lines

theorem walksForest (node : Node) : WalksForest node := by
  induction node using Node.nestedInduction with
  | sequence nodes ih =>
      intro level
      simp [sequenceElement, eventLines_walkAll ih]
  | block declarations instructions ihdeclarations ihinstructions =>
      intro level
      simp [eventLines_walkBlock ihdeclarations ihinstructions]
  | declaration identifier qualifier type initializer ih =>
      intro level
      simp [eventLines_walkOption ih]
  | functionDefinition type arguments declarations instructions iharguments ihdeclarations
      ihinstructions =>
      intro level
      simp [eventLines_walkSequence? iharguments,
        eventLines_walkBlock ihdeclarations ihinstructions]
  | functionCall identifier arguments ihidentifier iharguments =>
      intro level
      cases identifier with
      | none => simp [forestCallee, recursiveElement, eventLines_walkSequence? iharguments]
      | some identifier =>
          have hidentifier := ihidentifier identifier rfl (level + 4)
          simp [forestCallee, hidentifier, eventLines_walkSequence? iharguments]
  | ret value ih =>
      intro level
      simp [eventLines_walkOption ih]
  | print arguments ih =>
      intro level
      simp [sequenceElement, eventLines_walkAll ih]
  | _ =>
      intro level
      simp_all [WalksForest]

end

/-- The lines of a dump are those of the forest of its tree. -/
theorem lines_eq_linesAll (root : Node) (level : Nat) :
    lines root level = Element.linesAll (forest root level) :=
  walksForest root level

theorem dump?_eq_some {root : Node} {level : Nat} {text : String}
    (hdump : dump? root level = some text) : text = linesText (lines root level) := by
  unfold dump? at hdump
  split at hdump
  · exact (Option.some.inj hdump).symm
  · cases hdump

end Tag
end SyntaxDump

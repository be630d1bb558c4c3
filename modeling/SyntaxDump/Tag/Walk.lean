import SyntaxDump.Syntax.Node
import SyntaxDump.Tag.Line
import SyntaxDump.Tag.Literal

/-!
# The walk over a tree

Dumping a tree is a walk over it, and the walk is recorded as a list of events:
a node is entered, a line is due, a pending declaration is settled.  What a
dump writes, what it logs and when it lowers the pending flag are three
projections of that list.

A direct child stands two levels below its parent and a child inside a named
wrapper four.  The target of an assignment stands at the level of the
assignment and the wrapper of an initializer at that of its declaration.
-/

namespace SyntaxDump
namespace Tag

/-- What happens on a walk. -/
inductive Event where
  /-- a node is entered -/
  | visiting (label : String) (level : Nat)
  /-- a line is written -/
  | line (line : Line)
  /-- a pending declaration is no longer pending -/
  | settled
deriving DecidableEq, Repr

def openAt (level : Nat) (name : String) : Event := .line ⟨level, .opening name []⟩

def openWith (level : Nat) (name : String) (attributes : List (String × String)) : Event :=
  .line ⟨level, .opening name attributes⟩

def closeAt (level : Nat) (name : String) : Event := .line ⟨level, .closing name⟩

def inlineAt (level : Nat) (name text : String) : Event := .line ⟨level, .inline name text⟩

/-- An opening tag, a body, and the closing tag. -/
def wrapped (level : Nat) (name : String) (body : List Event) : List Event :=
  openAt level name :: (body ++ [closeAt level name])

/-- A sequence shows its length, then its elements. -/
def sequenced (level size : Nat) (elements : List Event) : List Event :=
  openWith level "sequence_node" [("size", Decimal.natText size)] ::
    (elements ++ [closeAt level "sequence_node"])

/-- The two lists of a block, each in a wrapper that is there even if the list
is not. -/
def blocked (level : Nat) (declarations instructions : List Event) : List Event :=
  wrapped level "block_node"
    (wrapped (level + 2) "declarations" declarations ++
      wrapped (level + 2) "instructions" instructions)

/-- The type shown in an attribute; a type left out is inferred. -/
def typeAttribute (type : Option TypeDescriptor) : String :=
  (type.map TypeDescriptor.name).getD "auto"

mutual
/-- The events of a node and all below it, with the node at the given level. -/
def walk : Node → Nat → List Event
  | node@(.integer value), level =>
      [.visiting node.label level, inlineAt level node.label (Decimal.integerText value.toInt)]
  | node@(.double value), level =>
      [.visiting node.label level, inlineAt level node.label (doubleText value)]
  | node@(.string value), level =>
      [.visiting node.label level, inlineAt level node.label value]
  | node@(.nil), level => .visiting node.label level :: wrapped level node.label []
  | node@(.null), level => .visiting node.label level :: wrapped level node.label []
  | node@(.data _), level => [.visiting node.label level]
  | node@(.unary _ argument), level =>
      .visiting node.label level :: wrapped level node.label (walk argument (level + 2))
  | node@(.binary _ left right), level =>
      .visiting node.label level ::
        wrapped level node.label (walk left (level + 2) ++ walk right (level + 2))
  | node@(.var name), level => [.visiting node.label level, inlineAt level node.label name]
  | node@(.index base index), level =>
      .visiting node.label level ::
        wrapped level node.label (walk base (level + 4) ++ walk index (level + 4))
  | node@(.addressOf lvalue), level =>
      .visiting node.label level :: wrapped level node.label (walk lvalue (level + 4))
  | node@(.stackAlloc argument), level =>
      .visiting node.label level :: wrapped level node.label (walk argument (level + 4))
  | node@(.rvalue lvalue), level =>
      .visiting node.label level :: wrapped level node.label (walk lvalue (level + 4))
  | node@(.assignment lvalue rvalue), level =>
      .visiting node.label level ::
        wrapped level node.label (walk lvalue level ++ .settled :: walk rvalue (level + 4))
  | node@(.sequence nodes), level =>
      .visiting node.label level :: sequenced level nodes.length (walkAll nodes (level + 2))
  | node@(.block body), level => .visiting node.label level :: walkBlock body level
  | node@(.declaration identifier qualifier type initializer), level =>
      .visiting node.label level :: .settled ::
        openWith level node.label
          [("name", identifier), ("qualifier", qualifier.name), ("type", typeAttribute type)] ::
        (wrapped level "initializer" (walkOption initializer (level + 4)) ++
          [closeAt level node.label])
  | node@(.functionDefinition type arguments body), level =>
      .visiting node.label level :: openWith level node.label [("type", typeAttribute type)] ::
        (wrapped (level + 2) "arguments" (walkSequence? arguments (level + 4)) ++
          wrapped (level + 2) "block" (walkBlock body (level + 4)) ++ [closeAt level node.label])
  | node@(.functionCall identifier arguments), level =>
      .visiting node.label level ::
        wrapped level node.label
          (wrapped (level + 2) "identifier"
              (match identifier with
                | some identifier => walk identifier (level + 4)
                | none => wrapped (level + 4) "recursive" []) ++
            wrapped (level + 2) "arguments" (walkSequence? arguments (level + 4)))
  | node@(.sizeof expression), level =>
      .visiting node.label level :: wrapped level node.label (walk expression (level + 4))
  | node@(.ifThen condition block), level =>
      .visiting node.label level ::
        wrapped level node.label
          (wrapped (level + 2) "condition" (walk condition (level + 4)) ++
            wrapped (level + 2) "then" (walk block (level + 4)))
  | node@(.ifElse condition thenBlock elseBlock), level =>
      .visiting node.label level ::
        wrapped level node.label
          (wrapped (level + 2) "condition" (walk condition (level + 4)) ++
            wrapped (level + 2) "then" (walk thenBlock (level + 4)) ++
            wrapped (level + 2) "else" (walk elseBlock (level + 4)))
  | node@(.whileLoop condition block), level =>
      .visiting node.label level ::
        wrapped level node.label
          (wrapped (level + 2) "condition" (walk condition (level + 4)) ++
            wrapped (level + 2) "block" (walk block (level + 4)))
  | node@(.ret value), level =>
      .visiting node.label level :: wrapped level node.label (walkOption value (level + 4))
  | node@(.stop depth), level =>
      [.visiting node.label level,
        openWith level node.label [("level", Decimal.integerText depth.toInt)],
        closeAt level node.label]
  | node@(.next depth), level =>
      [.visiting node.label level,
        openWith level node.label [("level", Decimal.integerText depth.toInt)],
        closeAt level node.label]
  | node@(.input), level => .visiting node.label level :: wrapped level node.label []
  | node@(.print arguments), level =>
      .visiting node.label level ::
        wrapped level node.label
          (sequenced (level + 2) arguments.length (walkAll arguments (level + 4)))
  | node@(.evaluation argument), level =>
      .visiting node.label level :: wrapped level node.label (walk argument (level + 2))
/-- Nodes one after the other, all at one level. -/
def walkAll : List Node → Nat → List Event
  | [], _ => []
  | node :: rest, level => walk node level ++ walkAll rest level
/-- A node if there is one. -/
def walkOption : Option Node → Nat → List Event
  | none, _ => []
  | some node, level => walk node level
/-- A sequence if there is one. -/
def walkSequence? : Option (List Node) → Nat → List Event
  | none, _ => []
  | some nodes, level => sequenced level nodes.length (walkAll nodes (level + 2))
/-- A block whose tag stands at the given level. -/
def walkBlock : Block Node → Nat → List Event
  | ⟨declarations, instructions⟩, level =>
      blocked level (walkSequence? declarations (level + 4))
        (walkSequence? instructions (level + 4))
end

end Tag
end SyntaxDump

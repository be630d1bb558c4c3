import SyntaxDump.Binary64
import SyntaxDump.Syntax.Operator
import SyntaxDump.Syntax.Type

/-!
# Typed syntax trees

The tree type, the kinds of its nodes and the label each node has in dumps.
Parts that a program may leave out are optional, and an absent list of nodes
is not the same as an empty one.
-/

namespace SyntaxDump

/-- The body of a block: what it declares and what it does. -/
structure Block (α : Type) where
  declarations : Option (List α) := none
  instructions : Option (List α) := none
deriving Repr, Inhabited

/-- A node of the typed syntax tree. -/
inductive Node where
  | integer (value : Int32)
  | double (value : Binary64)
  | string (value : String)
  | nil
  | null
  /-- opaque bytes, which dumps do not show -/
  | data (bytes : List UInt8)
  | unary (op : UnaryOperator) (argument : Node)
  | binary (op : BinaryOperator) (left right : Node)
  | var (name : String)
  | index (base index : Node)
  | addressOf (lvalue : Node)
  | stackAlloc (argument : Node)
  | rvalue (lvalue : Node)
  | assignment (lvalue rvalue : Node)
  | sequence (nodes : List Node)
  | block (body : Block Node)
  | declaration (identifier : String) (qualifier : Qualifier) (type : Option TypeDescriptor)
      (initializer : Option Node)
  | functionDefinition (type : Option TypeDescriptor) (arguments : Option (List Node))
      (body : Block Node)
  /-- a call; without an identifier the function calls itself -/
  | functionCall (identifier : Option Node) (arguments : Option (List Node))
  | sizeof (expression : Node)
  | ifThen (condition block : Node)
  | ifElse (condition thenBlock elseBlock : Node)
  | whileLoop (condition block : Node)
  | ret (value : Option Node)
  /-- leave the enclosing loop of the given depth -/
  | stop (level : Int32)
  /-- restart the enclosing loop of the given depth -/
  | next (level : Int32)
  | input
  | print (arguments : List Node)
  | evaluation (argument : Node)
deriving Repr, Inhabited

/-- The kinds of nodes. -/
inductive Kind where
  | integer
  | double
  | string
  | nil
  | null
  | data
  | unary
  | binary
  | var
  | index
  | addressOf
  | stackAlloc
  | rvalue
  | assignment
  | sequence
  | block
  | declaration
  | functionDefinition
  | functionCall
  | sizeof
  | ifThen
  | ifElse
  | whileLoop
  | ret
  | stop
  | next
  | input
  | print
  | evaluation
deriving DecidableEq, Repr, Inhabited

namespace Kind

/-- All kinds, in the order in which they are numbered. -/
def all : List Kind :=
  [.integer, .double, .string, .nil, .null, .data, .unary, .binary, .var, .index, .addressOf,
    .stackAlloc, .rvalue, .assignment, .sequence, .block, .declaration, .functionDefinition,
    .functionCall, .sizeof, .ifThen, .ifElse, .whileLoop, .ret, .stop, .next, .input, .print,
    .evaluation]

/-- The word for a kind in the interchange form. -/
def word : Kind → String
  | .integer => "integer"
  | .double => "double"
  | .string => "string"
  | .nil => "nil"
  | .null => "null"
  | .data => "data"
  | .unary => "unary"
  | .binary => "binary"
  | .var => "variable"
  | .index => "index"
  | .addressOf => "address_of"
  | .stackAlloc => "stack_alloc"
  | .rvalue => "rvalue"
  | .assignment => "assignment"
  | .sequence => "sequence"
  | .block => "block"
  | .declaration => "declaration"
  | .functionDefinition => "function_definition"
  | .functionCall => "function_call"
  | .sizeof => "sizeof"
  | .ifThen => "if"
  | .ifElse => "if_else"
  | .whileLoop => "while"
  | .ret => "return"
  | .stop => "stop"
  | .next => "next"
  | .input => "input"
  | .print => "print"
  | .evaluation => "evaluation"

def ofWord? (word : String) : Option Kind := all.find? (·.word == word)

@[simp] theorem ofWord?_word (kind : Kind) : ofWord? kind.word = some kind := by
  cases kind <;> decide

end Kind

namespace Node

def kind : Node → Kind
  | .integer _ => .integer
  | .double _ => .double
  | .string _ => .string
  | .nil => .nil
  | .null => .null
  | .data _ => .data
  | .unary .. => .unary
  | .binary .. => .binary
  | .var _ => .var
  | .index .. => .index
  | .addressOf _ => .addressOf
  | .stackAlloc _ => .stackAlloc
  | .rvalue _ => .rvalue
  | .assignment .. => .assignment
  | .sequence _ => .sequence
  | .block _ => .block
  | .declaration .. => .declaration
  | .functionDefinition .. => .functionDefinition
  | .functionCall .. => .functionCall
  | .sizeof _ => .sizeof
  | .ifThen .. => .ifThen
  | .ifElse .. => .ifElse
  | .whileLoop .. => .whileLoop
  | .ret _ => .ret
  | .stop _ => .stop
  | .next _ => .next
  | .input => .input
  | .print _ => .print
  | .evaluation _ => .evaluation

/-- The tag name of a node: its kind, or its operator if it has one. -/
def label : Node → String
  | .unary op _ => op.word ++ "_node"
  | .binary op _ _ => op.word ++ "_node"
  | node => node.kind.word ++ "_node"

/-! ## Equality -/

mutual
/-- Do two trees agree, with doubles compared as numbers? -/
def same : Node → Node → Bool
  | .integer a, .integer b => a == b
  | .double a, .double b => a.numEq b
  | .string a, .string b => a == b
  | .nil, .nil => true
  | .null, .null => true
  | .data a, .data b => a == b
  | .unary op a, .unary op' a' => op == op' && same a a'
  | .binary op a b, .binary op' a' b' => op == op' && same a a' && same b b'
  | .var a, .var b => a == b
  | .index a b, .index a' b' => same a a' && same b b'
  | .addressOf a, .addressOf a' => same a a'
  | .stackAlloc a, .stackAlloc a' => same a a'
  | .rvalue a, .rvalue a' => same a a'
  | .assignment a b, .assignment a' b' => same a a' && same b b'
  | .sequence a, .sequence a' => sameList a a'
  | .block a, .block a' => sameBlock a a'
  | .declaration name qualifier type a, .declaration name' qualifier' type' a' =>
      name == name' && qualifier == qualifier' && TypeDescriptor.sameOption type type' &&
        sameOption a a'
  | .functionDefinition type a b, .functionDefinition type' a' b' =>
      TypeDescriptor.sameOption type type' && sameOptionList a a' && sameBlock b b'
  | .functionCall a b, .functionCall a' b' => sameOption a a' && sameOptionList b b'
  | .sizeof a, .sizeof a' => same a a'
  | .ifThen a b, .ifThen a' b' => same a a' && same b b'
  | .ifElse a b c, .ifElse a' b' c' => same a a' && same b b' && same c c'
  | .whileLoop a b, .whileLoop a' b' => same a a' && same b b'
  | .ret a, .ret a' => sameOption a a'
  | .stop a, .stop b => a == b
  | .next a, .next b => a == b
  | .input, .input => true
  | .print a, .print a' => sameList a a'
  | .evaluation a, .evaluation a' => same a a'
  | _, _ => false
termination_by structural a => a
def sameList : List Node → List Node → Bool
  | [], [] => true
  | a :: rest, b :: rest' => same a b && sameList rest rest'
  | _, _ => false
termination_by structural a => a
def sameOption : Option Node → Option Node → Bool
  | none, none => true
  | some a, some b => same a b
  | _, _ => false
termination_by structural a => a
def sameOptionList : Option (List Node) → Option (List Node) → Bool
  | none, none => true
  | some a, some b => sameList a b
  | _, _ => false
termination_by structural a => a
def sameBlock : Block Node → Block Node → Bool
  | ⟨a, b⟩, ⟨a', b'⟩ => sameOptionList a a' && sameOptionList b b'
termination_by structural a => a
end

end Node
end SyntaxDump

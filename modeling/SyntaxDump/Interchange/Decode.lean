import SyntaxDump.Interchange.Scalar
import SyntaxDump.Json.Reader
import SyntaxDump.Syntax.Node

/-!
# Trees from JSON

Decoding of types and nodes from values that have been read completely.  A
tagged value is an object with a member `kind`, which may stand anywhere, or a
list that starts with the kind; inside a document a kind may also be given by
its number.

The decoders recur on a bound of the nesting depth of the value.  A value of
depth zero is a scalar, which is never a node or a type, so nothing is lost at
the end of the recursion.
-/

namespace SyntaxDump
namespace Interchange

open Json (Value ContentError)

/-! ## Kinds -/

/-- The words and numbers of a family of kinds. -/
structure Family (κ : Type) where
  /-- what a tagged value of this family is called -/
  name : String
  all : List κ
  word : κ → String
  ofWord? : String → Option κ

namespace Family

variable {κ : Type}

/-- The kind of a word. -/
def ofWord (family : Family κ) (word : String) : Decoded κ :=
  choiceOf family.ofWord? (family.all.map family.word) word

/-- The error for a value that has no kind at all. -/
def wrong {α : Type} (family : Family κ) (value : Value) : Decoded α :=
  wrongType value ("internally tagged enum " ++ family.name)

/-- A kind given by its word or by its number. -/
def kindOf (family : Family κ) : Value → Decoded κ
  | .string word => family.ofWord word
  | value@(.integer i) =>
      if i < 0 then wrongType value "variant identifier"
      else
        match family.all[i.toNat]? with
        | some kind => .ok kind
        | none =>
            wrongValue value ("variant index 0 <= i < " ++ Decimal.natText family.all.length)
  | value => wrongType value "variant identifier"

/-- Take the kind out of the members of an object; the others keep their
order. -/
def splitMembers (family : Family κ) : Option κ → List (String × Value) →
    Decoded (Option κ × List (String × Value))
  | kind, [] => .ok (kind, [])
  | kind, (name, value) :: rest =>
      if name = "kind" then
        if kind.isSome then .error (.duplicateField "kind")
        else do
          let kind ← family.kindOf value
          family.splitMembers (some kind) rest
      else do
        let (kind, others) ← family.splitMembers kind rest
        return (kind, (name, value) :: others)

/-- The kind of a tagged value and what else it holds. -/
def split (family : Family κ) : Value → Decoded (κ × Content)
  | .object members => do
      match ← family.splitMembers none members with
      | (some kind, others) => return (kind, .members others)
      | (none, _) => .error (.missingField "kind")
  | .array [] => .error (.missingField "kind")
  | .array (first :: rest) => do
      let kind ← family.kindOf first
      return (kind, .items rest)
  | value => family.wrong value

end Family

/-! ## Types -/

/-- The kinds of types. -/
inductive TypeKind where
  | int
  | double
  | string
  | void
  | unspec
  | pointer
  | functional
deriving DecidableEq, Repr

namespace TypeKind

def all : List TypeKind := [.int, .double, .string, .void, .unspec, .pointer, .functional]

def word : TypeKind → String
  | .int => "int"
  | .double => "double"
  | .string => "string"
  | .void => "void"
  | .unspec => "unspec"
  | .pointer => "pointer"
  | .functional => "functional"

def ofWord? (word : String) : Option TypeKind := all.find? (·.word == word)

@[simp] theorem ofWord?_word (kind : TypeKind) : ofWord? kind.word = some kind := by
  cases kind <;> decide

end TypeKind

def typeFamily : Family TypeKind :=
  ⟨"TypeDescriptor", TypeKind.all, TypeKind.word, TypeKind.ofWord?⟩

/-- A type of the given kind, with the types in it decoded by `type`. -/
def typeOfContent (type : Value → Decoded TypeDescriptor) (kind : TypeKind) (content : Content) :
    Decoded TypeDescriptor :=
  match kind with
  | .int => (readNothing content).map fun () => .int
  | .double => (readNothing content).map fun () => .double
  | .string => (readNothing content).map fun () => .string
  | .void => (readNothing content).map fun () => .void
  | .unspec => (readNothing content).map fun () => .unspec
  | .pointer =>
      ((Record.required "referenced" type).read
        "struct variant TypeDescriptor::Pointer" content).map .pointer
  | .functional =>
      (((Record.optional "inputs" (listOf type) []).and (Record.required "output" type)).read
        "struct variant TypeDescriptor::Functional" content).map
          fun (inputs, output) => .functional inputs output

/-- The type that a value nested at most `depth` deep stands for. -/
def typeOf : (depth : Nat) → Value → Decoded TypeDescriptor
  | 0, value => typeFamily.wrong value
  | depth + 1, value => do
      let (kind, content) ← typeFamily.split value
      typeOfContent (typeOf depth) kind content

/-! ## Nodes -/

def nodeFamily : Family Kind := ⟨"Node", Kind.all, Kind.word, Kind.ofWord?⟩

/-- The record of a sequence. -/
def sequenceRecord (node : Value → Decoded Node) : Record (Option (List Node)) (List Node) :=
  .optional "nodes" (listOf node) []

/-- The content of a record that is the value of a field. -/
def contentOf (value : Value) (subject : String) : Decoded Content :=
  match value with
  | .object members => .ok (.members members)
  | .array items => .ok (.items items)
  | value => wrongType value subject

/-- A sequence as the value of a field. -/
def sequenceOf (node : Value → Decoded Node) (value : Value) : Decoded (List Node) := do
  let content ← contentOf value "struct Sequence"
  (sequenceRecord node).read "struct Sequence" content

/-- The record of a block. -/
def blockRecord (node : Value → Decoded Node) :
    Record (Option (Option (List Node)) × Option (Option (List Node)))
      (Option (List Node) × Option (List Node)) :=
  (Record.optional "declarations" (optionOf (sequenceOf node)) none).and
    (Record.optional "instructions" (optionOf (sequenceOf node)) none)

def blockOfContent (node : Value → Decoded Node) (content : Content) : Decoded (Block Node) :=
  ((blockRecord node).read "struct Block" content).map fun (declarations, instructions) =>
    ⟨declarations, instructions⟩

/-- A block as the value of a field. -/
def blockOf (node : Value → Decoded Node) (value : Value) : Decoded (Block Node) := do
  let content ← contentOf value "struct Block"
  blockOfContent node content

/-- A node of the given kind, with the nodes and types in it decoded by `node`
and `type`. -/
def nodeOfContent (node : Value → Decoded Node) (type : Value → Decoded TypeDescriptor)
    (kind : Kind) (content : Content) : Decoded Node :=
  match kind with
  | .integer =>
      ((Record.required "value" int32Of).read "struct variant Node::Integer" content).map .integer
  | .double =>
      ((Record.required "value" doubleOf).read "struct variant Node::Double" content).map .double
  | .string =>
      ((Record.required "value" textOf).read "struct variant Node::String" content).map .string
  | .nil => (readNothing content).map fun () => .nil
  | .null => (readNothing content).map fun () => .null
  | .data =>
      ((Record.optional "bytes" (listOf byteOf) []).read
        "struct variant Node::Data" content).map .data
  | .unary =>
      (((Record.required "op" unaryOperatorOf).and (.required "argument" node)).read
        "struct variant Node::Unary" content).map fun (op, argument) => .unary op argument
  | .binary =>
      (((Record.required "op" binaryOperatorOf).and
          ((Record.required "left" node).and (.required "right" node))).read
        "struct variant Node::Binary" content).map fun (op, left, right) => .binary op left right
  | .var =>
      ((Record.required "name" textOf).read "struct variant Node::Variable" content).map .var
  | .index =>
      (((Record.required "base" node).and (.required "index" node)).read
        "struct variant Node::Index" content).map fun (base, index) => .index base index
  | .addressOf =>
      ((Record.required "lvalue" node).read "struct variant Node::AddressOf" content).map .addressOf
  | .stackAlloc =>
      ((Record.required "argument" node).read
        "struct variant Node::StackAlloc" content).map .stackAlloc
  | .rvalue =>
      ((Record.required "lvalue" node).read "struct variant Node::Rvalue" content).map .rvalue
  | .assignment =>
      (((Record.required "lvalue" node).and (.required "rvalue" node)).read
        "struct variant Node::Assignment" content).map fun (lvalue, rvalue) =>
          .assignment lvalue rvalue
  | .sequence => ((sequenceRecord node).read "struct Sequence" content).map .sequence
  | .block => (blockOfContent node content).map .block
  | .declaration =>
      (((Record.required "identifier" textOf).and
          ((Record.required "qualifier" qualifierOf).and
            ((Record.optional "type" (optionOf type) none).and
              (.optional "initializer" (optionOf node) none)))).read
        "struct Declaration" content).map fun (identifier, qualifier, type, initializer) =>
          .declaration identifier qualifier type initializer
  | .functionDefinition =>
      (((Record.optional "type" (optionOf type) none).and
          ((Record.optional "arguments" (optionOf (sequenceOf node)) none).and
            (.required "block" (blockOf node)))).read
        "struct FunctionDefinition" content).map fun (type, arguments, body) =>
          .functionDefinition type arguments body
  | .functionCall =>
      (((Record.optional "identifier" (optionOf node) none).and
          (.optional "arguments" (optionOf (sequenceOf node)) none)).read
        "struct FunctionCall" content).map fun (identifier, arguments) =>
          .functionCall identifier arguments
  | .sizeof =>
      ((Record.required "expression" node).read "struct variant Node::Sizeof" content).map .sizeof
  | .ifThen =>
      (((Record.required "condition" node).and (.required "block" node)).read
        "struct variant Node::If" content).map fun (condition, block) => .ifThen condition block
  | .ifElse =>
      (((Record.required "condition" node).and
          ((Record.required "then_block" node).and (.required "else_block" node))).read
        "struct variant Node::IfElse" content).map fun (condition, thenBlock, elseBlock) =>
          .ifElse condition thenBlock elseBlock
  | .whileLoop =>
      (((Record.required "condition" node).and (.required "block" node)).read
        "struct variant Node::While" content).map fun (condition, block) =>
          .whileLoop condition block
  | .ret =>
      ((Record.optional "value" (optionOf node) none).read
        "struct variant Node::Return" content).map .ret
  | .stop =>
      ((Record.required "level" int32Of).read "struct variant Node::Stop" content).map .stop
  | .next =>
      ((Record.required "level" int32Of).read "struct variant Node::Next" content).map .next
  | .input => (readNothing content).map fun () => .input
  | .print =>
      ((Record.required "arguments" (sequenceOf node)).read
        "struct variant Node::Print" content).map .print
  | .evaluation =>
      ((Record.required "argument" node).read
        "struct variant Node::Evaluation" content).map .evaluation

/-- The node that a value nested at most `depth` deep stands for. -/
def nodeOf : (depth : Nat) → Value → Decoded Node
  | 0, value => nodeFamily.wrong value
  | depth + 1, value => do
      let (kind, content) ← nodeFamily.split value
      nodeOfContent (nodeOf depth) (typeOf depth) kind content

end Interchange
end SyntaxDump

import SyntaxDump.Interchange.Scalar
import SyntaxDump.Syntax.Node

/-!
# Trees as JSON

A node is an object whose member `kind` names its kind; the other members are
its parts in a fixed order.  Optional parts that are absent are left out, empty
lists are not.
-/

namespace SyntaxDump
namespace Interchange

open Json (Value)

/-- An object with a kind. -/
def tagged (kind : String) (members : List (String × Value)) : Value :=
  .object (("kind", .string kind) :: members)

/-- A member that is left out if there is no value. -/
def member? (name : String) : Option Value → List (String × Value)
  | none => []
  | some value => [(name, value)]

mutual
def encodeType : TypeDescriptor → Value
  | .int => tagged "int" []
  | .double => tagged "double" []
  | .string => tagged "string" []
  | .void => tagged "void" []
  | .unspec => tagged "unspec" []
  | .pointer referenced => tagged "pointer" [("referenced", encodeType referenced)]
  | .functional inputs output =>
      tagged "functional" [("inputs", .array (encodeTypes inputs)), ("output", encodeType output)]
def encodeTypes : List TypeDescriptor → List Value
  | [] => []
  | type :: rest => encodeType type :: encodeTypes rest
end

/-- An integer of 32 bits. -/
def intValue (i : Int32) : Value := .integer i.toInt

/-- A sequence of encoded nodes as the value of a member. -/
def sequenceValue (nodes : List Value) : Value := .object [("nodes", .array nodes)]

/-- The object of a node of the given kind. -/
def object (kind : Kind) (members : List (String × Value)) : Value := tagged kind.word members

mutual
/-- A tree as a JSON value. -/
def encode : Node → Value
  | .integer value => object .integer [("value", intValue value)]
  | .double value => object .double [("value", doubleValue value)]
  | .string value => object .string [("value", .string value)]
  | .nil => object .nil []
  | .null => object .null []
  | .data bytes => object .data [("bytes", .array (bytes.map fun byte => .integer byte.toNat))]
  | .unary op argument => object .unary [("op", .string op.word), ("argument", encode argument)]
  | .binary op left right =>
      object .binary [("op", .string op.word), ("left", encode left), ("right", encode right)]
  | .var name => object .var [("name", .string name)]
  | .index base index => object .index [("base", encode base), ("index", encode index)]
  | .addressOf lvalue => object .addressOf [("lvalue", encode lvalue)]
  | .stackAlloc argument => object .stackAlloc [("argument", encode argument)]
  | .rvalue lvalue => object .rvalue [("lvalue", encode lvalue)]
  | .assignment lvalue rvalue =>
      object .assignment [("lvalue", encode lvalue), ("rvalue", encode rvalue)]
  | .sequence nodes => object .sequence [("nodes", .array (encodeAll nodes))]
  | .block body => object .block (encodeBlock body)
  | .declaration identifier qualifier type initializer =>
      object .declaration
        (("identifier", .string identifier) :: ("qualifier", .string qualifier.word) ::
          (member? "type" (type.map encodeType) ++
            member? "initializer" (encodeOption initializer)))
  | .functionDefinition type arguments body =>
      object .functionDefinition
        (member? "type" (type.map encodeType) ++ member? "arguments" (encodeSequence? arguments) ++
          [("block", .object (encodeBlock body))])
  | .functionCall identifier arguments =>
      object .functionCall
        (member? "identifier" (encodeOption identifier) ++
          member? "arguments" (encodeSequence? arguments))
  | .sizeof expression => object .sizeof [("expression", encode expression)]
  | .ifThen condition block =>
      object .ifThen [("condition", encode condition), ("block", encode block)]
  | .ifElse condition thenBlock elseBlock =>
      object .ifElse
        [("condition", encode condition), ("then_block", encode thenBlock),
          ("else_block", encode elseBlock)]
  | .whileLoop condition block =>
      object .whileLoop [("condition", encode condition), ("block", encode block)]
  | .ret value => object .ret (member? "value" (encodeOption value))
  | .stop level => object .stop [("level", intValue level)]
  | .next level => object .next [("level", intValue level)]
  | .input => object .input []
  | .print arguments => object .print [("arguments", sequenceValue (encodeAll arguments))]
  | .evaluation argument => object .evaluation [("argument", encode argument)]
def encodeAll : List Node → List Value
  | [] => []
  | node :: rest => encode node :: encodeAll rest
def encodeOption : Option Node → Option Value
  | none => none
  | some node => some (encode node)
def encodeSequence? : Option (List Node) → Option Value
  | none => none
  | some nodes => some (sequenceValue (encodeAll nodes))
/-- The members of a block. -/
def encodeBlock : Block Node → List (String × Value)
  | ⟨declarations, instructions⟩ =>
      member? "declarations" (encodeSequence? declarations) ++
        member? "instructions" (encodeSequence? instructions)
end

end Interchange
end SyntaxDump

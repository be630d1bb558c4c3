/-!
# Operators

The unary and binary operators of expressions.  Each has a word, which is its
spelling in the interchange form and, with `_node` behind it, its tag.
-/

namespace SyntaxDump

inductive UnaryOperator where
  | neg
  | not
  | identity
deriving DecidableEq, Repr, Inhabited

namespace UnaryOperator

def all : List UnaryOperator := [.neg, .not, .identity]

def word : UnaryOperator → String
  | .neg => "neg"
  | .not => "not"
  | .identity => "identity"

def ofWord? (word : String) : Option UnaryOperator := all.find? (·.word == word)

@[simp] theorem ofWord?_word (op : UnaryOperator) : ofWord? op.word = some op := by
  cases op <;> decide

end UnaryOperator

inductive BinaryOperator where
  | add
  | sub
  | mul
  | div
  | mod
  | lt
  | le
  | ge
  | gt
  | ne
  | eq
  | and
  | or
deriving DecidableEq, Repr, Inhabited

namespace BinaryOperator

def all : List BinaryOperator :=
  [.add, .sub, .mul, .div, .mod, .lt, .le, .ge, .gt, .ne, .eq, .and, .or]

def word : BinaryOperator → String
  | .add => "add"
  | .sub => "sub"
  | .mul => "mul"
  | .div => "div"
  | .mod => "mod"
  | .lt => "lt"
  | .le => "le"
  | .ge => "ge"
  | .gt => "gt"
  | .ne => "ne"
  | .eq => "eq"
  | .and => "and"
  | .or => "or"

def ofWord? (word : String) : Option BinaryOperator := all.find? (·.word == word)

@[simp] theorem ofWord?_word (op : BinaryOperator) : ofWord? op.word = some op := by
  cases op <;> decide

end BinaryOperator
end SyntaxDump

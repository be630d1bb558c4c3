import SyntaxDump.Interchange.Record
import SyntaxDump.Syntax.Operator

/-!
# Scalars of the interchange form

Numbers, texts, words and lists as they stand in the fields of records.
-/

namespace SyntaxDump
namespace Interchange

open Json (Value ContentError)

/-- The error for a value of a wrong sort. -/
def wrongType {α : Type} (value : Value) (expected : String) : Decoded α :=
  .error (.invalidType value.describe expected)

/-- The error for a value out of its range. -/
def wrongValue {α : Type} (value : Value) (expected : String) : Decoded α :=
  .error (.invalidValue value.describe expected)

/-- A whole number of 32 bits. -/
def int32Of : Value → Decoded Int32
  | value@(.integer i) =>
      if -(natPow 2 31 : Int) ≤ i ∧ i < natPow 2 31 then .ok (Int32.ofInt i)
      else wrongValue value "i32"
  | value => wrongType value "i32"

/-- A byte. -/
def byteOf : Value → Decoded UInt8
  | value@(.integer i) =>
      if 0 ≤ i ∧ i < natPow 2 8 then .ok (UInt8.ofNat i.toNat) else wrongValue value "u8"
  | value => wrongType value "u8"

def textOf : Value → Decoded String
  | .string text => .ok text
  | value => wrongType value "a string"

/-- A double is any number; values that no number stands for have a word. -/
def doubleOf : Value → Decoded Binary64
  | .integer i => .ok (Binary64.ofInt i)
  | .float x => .ok x
  | value@(.string text) =>
      if text = "nan" then .ok Binary64.nan
      else if text = "inf" then .ok Binary64.infinity
      else if text = "-inf" then .ok Binary64.infinity.neg
      else wrongValue value "a number, \"nan\", \"inf\" or \"-inf\""
  | _ => .error (.noMatch "Repr")

/-- The value that stands for a double. -/
def doubleValue (x : Binary64) : Value :=
  if x.isFinite then .float x
  else if x.isNaN then .string "nan"
  else if x.isNegative then .string "-inf"
  else .string "inf"

/-- Decode all items of a list, up to the first fault. -/
def decodeAll {α : Type} (decode : Value → Decoded α) : List Value → Decoded (List α)
  | [] => .ok []
  | item :: rest => do
      let value ← decode item
      let values ← decodeAll decode rest
      return value :: values

def listOf {α : Type} (decode : Value → Decoded α) : Value → Decoded (List α)
  | .array items => decodeAll decode items
  | value => wrongType value "a sequence"

/-- A value or null. -/
def optionOf {α : Type} (decode : Value → Decoded α) : Value → Decoded (Option α)
  | .null => .ok none
  | value => (decode value).map some

/-- A word, given as a text or as the only name of an object with nothing in
it. -/
def wordOf {α : Type} (ofWord : String → Decoded α) : Value → Decoded α
  | .string word => ofWord word
  | .object [(word, content)] => do
      let result ← ofWord word
      match content with
      | .null => return result
      | .object [] => return result
      | content => wrongType content "unit"
  | value@(.object _) => wrongValue value "map with a single key"
  | value => wrongType value "string or map"

/-- One of several words. -/
def choiceOf {α : Type} (ofWord? : String → Option α) (words : List String) (word : String) :
    Decoded α :=
  match ofWord? word with
  | some choice => .ok choice
  | none => .error (.unknownVariant word words)

def unaryOperatorOf : Value → Decoded UnaryOperator :=
  wordOf (choiceOf UnaryOperator.ofWord? (UnaryOperator.all.map UnaryOperator.word))

def binaryOperatorOf : Value → Decoded BinaryOperator :=
  wordOf (choiceOf BinaryOperator.ofWord? (BinaryOperator.all.map BinaryOperator.word))

def qualifierOf : Value → Decoded Qualifier :=
  wordOf fun word => .ok (Qualifier.ofWord word)

end Interchange
end SyntaxDump

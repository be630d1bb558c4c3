import SyntaxDump.Json.Writer
import SyntaxDump.Syntax.Type
import SyntaxDump.Text.Quoted

/-!
# What can be wrong with a document

A text may break the grammar, or its content may not be what was asked for.
Both are causes with one wording each.
-/

namespace SyntaxDump
namespace Json

/-- A breach of the grammar. -/
inductive GrammarError where
  | valueEnds
  | objectEnds
  | listEnds
  | stringEnds
  | expectedValue
  | expectedWord
  | expectedColon
  | expectedCommaOrBrace
  | expectedCommaOrBracket
  | keyNotString
  | trailingComma
  | trailingCharacters
  | tooNested
  | controlCharacter
  | invalidEscape
  | loneSurrogate
  | unfinishedPair
  | invalidNumber
  | numberOutOfRange
deriving DecidableEq, Repr

def GrammarError.message : GrammarError → String
  | .valueEnds => "EOF while parsing a value"
  | .objectEnds => "EOF while parsing an object"
  | .listEnds => "EOF while parsing a list"
  | .stringEnds => "EOF while parsing a string"
  | .expectedValue => "expected value"
  | .expectedWord => "expected ident"
  | .expectedColon => "expected `:`"
  | .expectedCommaOrBrace => "expected `,` or `\x7d`"
  | .expectedCommaOrBracket => "expected `,` or `]`"
  | .keyNotString => "key must be a string"
  | .trailingComma => "trailing comma"
  | .trailingCharacters => "trailing characters"
  | .tooNested => "recursion limit exceeded"
  | .controlCharacter => "control character (\\u0000-\\u001F) found while parsing a string"
  | .invalidEscape => "invalid escape"
  | .loneSurrogate => "lone leading surrogate in hex escape"
  | .unfinishedPair => "unexpected end of hex escape"
  | .invalidNumber => "invalid number"
  | .numberOutOfRange => "number out of range"

/-- The kind of a value in a message. -/
def Value.describe : Value → String
  | .null => "null"
  | .bool value => "boolean `" ++ (if value then "true" else "false") ++ "`"
  | .integer value => "integer `" ++ Decimal.integerText value ++ "`"
  | .float value => "floating point `" ++ String.ofList (floatText value) ++ "`"
  | .string value => "string " ++ Text.quote value
  | .array _ => "sequence"
  | .object _ => "map"

/-- A value that is not what it should be; `expected` says what it should be. -/
inductive ContentError where
  /-- a value of another sort -/
  | invalidType (found : String) (expected : String)
  /-- a value of the right sort out of its range -/
  | invalidValue (found : String) (expected : String)
  /-- a list with too few or too many items -/
  | invalidLength (length : Nat) (expected : String)
  | unknownVariant (word : String) (choices : List String)
  | missingField (name : String)
  | duplicateField (name : String)
  /-- none of several readings applies -/
  | noMatch (name : String)
deriving DecidableEq, Repr

/-- The possible words, each in backticks. -/
def choiceText (choices : List String) : String :=
  joinWith ", " (choices.map fun choice => "`" ++ choice ++ "`")

def ContentError.message : ContentError → String
  | .invalidType found expected => "invalid type: " ++ found ++ ", expected " ++ expected
  | .invalidValue found expected => "invalid value: " ++ found ++ ", expected " ++ expected
  | .invalidLength length expected =>
      "invalid length " ++ Decimal.natText length ++ ", expected " ++ expected
  | .unknownVariant word choices =>
      "unknown variant `" ++ word ++ "`, expected one of " ++ choiceText choices
  | .missingField name => "missing field `" ++ name ++ "`"
  | .duplicateField name => "duplicate field `" ++ name ++ "`"
  | .noMatch name => "data did not match any variant of untagged enum " ++ name

/-- Anything that can be wrong. -/
inductive Error where
  | grammar (error : GrammarError)
  | content (error : ContentError)
deriving DecidableEq, Repr

def Error.message : Error → String
  | .grammar error => error.message
  | .content error => error.message

/-! ## Places -/

/-- A line and a column, the column counted in bytes. -/
structure Position where
  line : Nat
  column : Nat
deriving DecidableEq, Repr

/-- An error and how many bytes of the text were left unread when it arose. -/
structure Failure where
  cause : Error
  left : Nat
deriving DecidableEq, Repr

/-- The size of a text in bytes. -/
def byteCount (cs : List Char) : Nat := cs.foldl (fun n c => n + c.utf8Size) 0

/-- The position after `offset` bytes of a text that starts at `here`. -/
def advance (here : Position) : List Char → Nat → Position
  | [], _ => here
  | c :: rest, offset =>
      if offset = 0 then here
      else if offset < c.utf8Size then { here with column := here.column + offset }
      else
        let next := if c = '\n' then ⟨here.line + 1, 0⟩
          else { here with column := here.column + c.utf8Size }
        advance next rest (offset - c.utf8Size)

/-- Where in the text the failure arose. -/
def Failure.position (failure : Failure) (text : List Char) : Position :=
  advance ⟨1, 0⟩ text (byteCount text - failure.left)

def Position.message (position : Position) : String :=
  " at line " ++ Decimal.natText position.line ++ " column " ++ Decimal.natText position.column

end Json
end SyntaxDump

import SyntaxDump.Decimal.Layout
import SyntaxDump.Json.Value

/-!
# Writing JSON

The compact form has no blanks at all; the pretty form puts every item and
member on a line of its own, indented by two more spaces than its container.
-/

namespace SyntaxDump
namespace Json

/-! ## Numbers -/

/-- Powers from `-5` to `15` are written positionally and keep a point, all
others with a signed exponent. -/
def numberLayout : Decimal.Layout where
  plainFrom := -5
  plainTo := 15
  keepsPoint := true
  exponentWidth := 1

/-- A finite double in the fewest digits that identify it. -/
def floatText (x : Binary64) : List Char :=
  Decimal.withSign x.isNegative <|
    if x.isZero then numberLayout.write ['0'] 0
    else
      let shortest := Decimal.shortest x
      numberLayout.write (Decimal.digits shortest.coefficient) shortest.leading

/-! ## Strings -/

/-- The digits of hexadecimal numbers. -/
def hexDigit (n : Nat) : Char :=
  if n < 10 then Char.ofNat ('0'.toNat + n) else Char.ofNat ('a'.toNat + (n - 10))

/-- A character inside a string: quotes, backslashes and control characters
are escaped, all others stand for themselves. -/
def escape (c : Char) : List Char :=
  if c = '"' then ['\\', '"']
  else if c = '\\' then ['\\', '\\']
  else if c = '\x08' then ['\\', 'b']
  else if c = '\x0c' then ['\\', 'f']
  else if c = '\n' then ['\\', 'n']
  else if c = '\r' then ['\\', 'r']
  else if c = '\t' then ['\\', 't']
  else if c.toNat < 0x20 then
    ['\\', 'u', '0', '0', hexDigit (c.toNat / 16), hexDigit (c.toNat % 16)]
  else [c]

def stringText (s : String) : List Char := '"' :: (s.toList.flatMap escape ++ ['"'])

/-! ## Values -/

/-- The two forms of a document. -/
inductive Style where
  | compact
  | pretty
deriving DecidableEq, Repr

/-- A line break and the indentation of the given depth, in the pretty form. -/
def Style.break (style : Style) (depth : Nat) : List Char :=
  match style with
  | .compact => []
  | .pretty => '\n' :: List.replicate (2 * depth) ' '

/-- What stands between a name and its value. -/
def Style.colon : Style → List Char
  | .compact => [':']
  | .pretty => [':', ' ']

mutual
/-- The text of a value inside `depth` containers, in front of `rest`. -/
def writeOnto (style : Style) : Value → (depth : Nat) → (rest : List Char) → List Char
  | .null, _, rest => "null".toList ++ rest
  | .bool value, _, rest => (if value then "true" else "false").toList ++ rest
  | .integer value, _, rest => Decimal.integerDigits value ++ rest
  | .float value, _, rest => floatText value ++ rest
  | .string value, _, rest => stringText value ++ rest
  | .array [], _, rest => '[' :: ']' :: rest
  | .array (item :: items), depth, rest =>
      '[' :: (style.break (depth + 1) ++ writeOnto style item (depth + 1)
        (writeItems style items (depth + 1) (style.break depth ++ ']' :: rest)))
  | .object [], _, rest => '{' :: '}' :: rest
  | .object ((name, value) :: members), depth, rest =>
      '{' :: (style.break (depth + 1) ++ (stringText name ++ (style.colon ++
        writeOnto style value (depth + 1)
          (writeMembers style members (depth + 1) (style.break depth ++ '}' :: rest)))))
/-- All items after the first one, in front of `rest`. -/
def writeItems (style : Style) : List Value → (depth : Nat) → (rest : List Char) → List Char
  | [], _, rest => rest
  | item :: items, depth, rest =>
      ',' :: (style.break depth ++ writeOnto style item depth (writeItems style items depth rest))
/-- All members after the first one, in front of `rest`. -/
def writeMembers (style : Style) :
    List (String × Value) → (depth : Nat) → (rest : List Char) → List Char
  | [], _, rest => rest
  | (name, value) :: members, depth, rest =>
      ',' :: (style.break depth ++ (stringText name ++ (style.colon ++
        writeOnto style value depth (writeMembers style members depth rest))))
end

/-- The text of a value inside `depth` containers. -/
def write (style : Style) (value : Value) (depth : Nat) : List Char :=
  writeOnto style value depth []

/-- The text of a document. -/
def Value.text (style : Style) (value : Value) : String := String.ofList (write style value 0)

end Json
end SyntaxDump

import SyntaxDump.Binary64

/-!
# JSON values

A document as it stands in the text: the members of an object keep their order
and may repeat a name.  Whole numbers are exact, all others are doubles.
-/

namespace SyntaxDump
namespace Json

inductive Value where
  | null
  | bool (value : Bool)
  | integer (value : Int)
  | float (value : Binary64)
  | string (value : String)
  | array (items : List Value)
  | object (members : List (String × Value))
deriving Repr, Inhabited

namespace Value

mutual
/-- How deep arrays and objects are nested; a scalar has depth zero. -/
def depth : Value → Nat
  | .array items => depthItems items + 1
  | .object members => depthMembers members + 1
  | _ => 0
def depthItems : List Value → Nat
  | [] => 0
  | item :: rest => max item.depth (depthItems rest)
def depthMembers : List (String × Value) → Nat
  | [] => 0
  | (_, value) :: rest => max value.depth (depthMembers rest)
end

end Value
end Json
end SyntaxDump

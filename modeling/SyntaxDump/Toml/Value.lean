import SyntaxDump.Binary64
import SyntaxDump.Toml.Moment

/-!
# TOML values

Whole numbers fit into 64 bits with a sign.
-/

namespace SyntaxDump
namespace Toml

inductive Value where
  | bool (value : Bool)
  | integer (value : Int)
  | float (value : Binary64)
  | string (value : String)
  | moment (moment : Moment)
  | array (items : List Value)
  | table (entries : List (String × Value))
deriving Repr, Inhabited

/-- A dotted key: the tables it leads through and the name in the last one. -/
structure Key where
  parents : List String
  name : String
deriving DecidableEq, Repr

end Toml
end SyntaxDump

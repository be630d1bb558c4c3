import SyntaxDump.Toml.Moment.Reader
import SyntaxDump.Toml.Table

/-!
# Tables that stand for moments

A table whose first entry has a reserved name is another way to write the
moment that this entry holds as a string; its other entries do not matter.
-/

namespace SyntaxDump
namespace Toml

/-- The reserved name. -/
def momentName : String := "$__toml_private_datetime"

/-- The moment that the entry with the reserved name holds. -/
def heldMoment? : Value → Option Value
  | .string text => (Moment.ofText? text).map Value.moment
  | _ => none

mutual
/-- Replace all tables that stand for moments, if they do. -/
def Value.resolve? : Value → Option Value
  | .array items => (resolveItems? items).map Value.array
  | .table entries =>
      match entries with
      | [] => some (.table [])
      | (name, value) :: rest =>
          if name = momentName then heldMoment? value
          else do
            let value ← value.resolve?
            let rest ← resolveEntries? rest
            return .table ((name, value) :: rest)
  | value => some value
def resolveItems? : List Value → Option (List Value)
  | [] => some []
  | item :: rest => do
      let item ← item.resolve?
      let rest ← resolveItems? rest
      return item :: rest
def resolveEntries? : List (String × Value) → Option (List (String × Value))
  | [] => some []
  | (name, value) :: rest => do
      let value ← value.resolve?
      let rest ← resolveEntries? rest
      return (name, value) :: rest
end

end Toml
end SyntaxDump

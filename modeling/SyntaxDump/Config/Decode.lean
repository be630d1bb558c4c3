import SyntaxDump.Config.Setting
import SyntaxDump.Decimal.Layout
import SyntaxDump.Format.Builtin

/-!
# The configuration

Two settings matter: the level at which dumps start and whether JSON is
written in the pretty form.  Their values are taken from settings of several
sorts.
-/

namespace SyntaxDump

/-- The configuration of the program. -/
structure Config where
  initialLevel : UInt64
  pretty : Bool
deriving DecidableEq, Repr

namespace Config

def tagFormat (config : Config) : Format := SyntaxDump.tagFormat config.initialLevel.toNat

def jsonFormat (config : Config) : Format := SyntaxDump.jsonFormat config.pretty

/-! ## Errors -/

/-- Why there is no configuration. -/
inductive LoadError where
  /-- a file that must exist does not -/
  | missingFile (name : String)
  /-- a file that is no TOML document -/
  | malformedFile
  /-- a file that is not a table as a whole -/
  | rootNotTable (found origin : String)
  /-- a setting of the wrong sort, its key and its file -/
  | wrongType (found expected key : String) (origin : Option String)
  /-- a group of settings that is neither a table nor an array -/
  | wrongShape (found expected : String)
  /-- an array with too few items -/
  | tooShort (length : Nat) (expected : String)
  /-- a setting that nothing gives a value -/
  | missingSetting (name : String)
deriving DecidableEq, Repr

def LoadError.message : LoadError → String
  | .missingFile name => "configuration file \"" ++ name ++ "\" not found"
  | .malformedFile => "TOML parse error"
  | .rootNotTable found origin =>
      "invalid type: " ++ found ++ ", expected a map in " ++ origin ++ " in " ++ origin
  | .wrongType found expected key origin =>
      "invalid type: " ++ found ++ ", expected " ++ expected ++ " for key `" ++ key ++ "`" ++
        (match origin with
          | some name => " in " ++ name
          | none => "")
  | .wrongShape found expected => "invalid type: " ++ found ++ ", expected " ++ expected
  | .tooShort length expected =>
      "invalid length " ++ Decimal.natText length ++ ", expected " ++ expected
  | .missingSetting name => "missing field `" ++ name ++ "`"

/-! ## Descriptions in messages -/

/-- Doubles are shown in full, with a point. -/
def numberLayout : Decimal.Layout where
  plainFrom := -400
  plainTo := 400
  keepsPoint := true
  exponentWidth := 1

def floatText (x : Binary64) : String :=
  if x.isNaN then "NaN"
  else
    String.ofList <| Decimal.withSign x.isNegative <|
      if x.isInfinite then "inf".toList
      else if x.isZero then numberLayout.write ['0'] 0
      else
        let shortest := Decimal.shortest x
        numberLayout.write (Decimal.digits shortest.coefficient) shortest.leading

def Scalar.describe : Scalar → String
  | .unset => "unit value"
  | .bool value => "boolean `" ++ (if value then "true" else "false") ++ "`"
  | .integer value => "integer `" ++ Decimal.integerText value ++ "`"
  | .float value => "floating point `" ++ floatText value ++ "`"
  | .text value => "string " ++ Text.quote value

/-! ## Single settings -/

/-- The greatest level. -/
def maxLevel : Nat := natPow 2 64 - 1

/-- The level that a scalar stands for; otherwise what was found and what was
expected. -/
def levelOf : Scalar → Except (String × String) Nat
  | .bool value => .ok (if value then 1 else 0)
  | .integer value =>
      if 0 ≤ value then .ok value.toNat
      else .error ("64-bit " ++ Scalar.describe (.integer value),
        "an unsigned 64 bit or less integer")
  | .float value => .ok (value.toNatClamped maxLevel)
  | .text value =>
      let word := Text.lower value
      if word ∈ ["true", "on", "yes"] then .ok 1
      else if word ∈ ["false", "off", "no"] then .ok 0
      else
        match Decimal.readWord? value with
        | some level => .ok level
        | none => .error (Scalar.describe (.text value), "an integer")
  | .unset => .error (Scalar.describe .unset, "an integer")

/-- The truth value that a scalar stands for; otherwise what was found and what
was expected. -/
def switchOf : Scalar → Except (String × String) Bool
  | .bool value => .ok value
  | .integer value => .ok (value != 0)
  | .float value => .ok (!value.isZero)
  | .text value =>
      let word := Text.lower value
      if word ∈ ["1", "true", "on", "yes"] then .ok true
      else if word ∈ ["0", "false", "off", "no"] then .ok false
      else .error (Scalar.describe (.text word), "a boolean")
  | .unset => .error (Scalar.describe .unset, "a boolean")

/-- Take a setting that should be a scalar; `sort` names what is expected. -/
def scalarAt {α : Type} (sort : String) (take : Scalar → Except (String × String) α)
    (key : String) : Setting → Except LoadError α
  | .scalar origin value =>
      match take value with
      | .ok result => .ok result
      | .error (found, expected) => .error (.wrongType found expected key origin)
  | .array origin _ => .error (.wrongType "sequence" sort key origin)
  | .table origin _ => .error (.wrongType "map" sort key origin)

/-! ## Groups -/

/-- A group of settings with a single member. -/
structure Group (α : Type) where
  name : String
  /-- what the group is called in messages -/
  record : String
  member : String
  /-- take the member, which stands under the given key -/
  take : (key : String) → Setting → Except LoadError α

def dumpGroup : Group Nat where
  name := "dump"
  record := "struct DumpConfig"
  member := "initial_level"
  take := scalarAt "an integer" levelOf

def jsonGroup : Group Bool where
  name := "json"
  record := "struct JsonConfig"
  member := "pretty"
  take := scalarAt "a boolean" switchOf

/-- The member of a group, which is either an entry of a table or the first
item of an array. -/
def Group.read {α : Type} (group : Group α) (root : Setting) : Except LoadError α :=
  match root.entry? group.name with
  | none => .error (.missingSetting group.name)
  | some (.table _ entries) =>
      match entries.lookup group.member with
      | some setting => group.take (group.name ++ "." ++ group.member) setting
      | none => .error (.missingSetting group.member)
  | some (.array _ items) =>
      match items with
      | setting :: _ => group.take (group.name ++ "[0]") setting
      | [] => .error (.tooShort 0 (group.record ++ " with 1 element"))
  | some (.scalar _ value) => .error (.wrongShape value.describe group.record)

/-- The configuration that a tree of settings stands for. -/
def decode (root : Setting) : Except LoadError Config := do
  let level ← dumpGroup.read root
  let pretty ← jsonGroup.read root
  return ⟨UInt64.ofNat level, pretty⟩

end Config
end SyntaxDump

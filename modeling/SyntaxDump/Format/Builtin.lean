import SyntaxDump.Format.Basic
import SyntaxDump.Tag.Dump

/-!
# The formats that are always there

The tag format writes dumps at a level; the interchange format reads and
writes JSON.  Each has one option, which overrides the setting it was made
with.
-/

namespace SyntaxDump

/-! ## Tag dumps -/

/-- The option for the level of the root. -/
def initialLevelOption : String := "initial-level"

def tagName : String := "tag"

/-- The dump of a tree as a format operation. -/
def dumpText (root : Node) (level : Nat) : Except FormatError String :=
  match Tag.dump? root level with
  | some text => .ok text
  | none => .error .tooDeep

/-- The level that is left after all options have been taken. -/
def levelWith (level : Nat) : Options → Except FormatError Nat
  | [] => .ok level
  | (key, value) :: rest =>
      if key = initialLevelOption then
        match Decimal.readWord? value with
        | some level => levelWith level rest
        | none => .error (.invalidOption key value)
      else .error (.notSupported tagName (.option key))

/-- What dumping a tree logs. -/
def dumpLog (root : Node) (level : Nat) : List LogRecord :=
  ⟨.debug, "dumping " ++ root.label ++ " at level " ++ Decimal.natText level⟩ ::
    (Tag.visits root level).map fun (label, level) =>
      ⟨.trace, "visiting " ++ label ++ " at level " ++ Decimal.natText level⟩

/-- Dumps with the root at the given level. -/
def tagFormat (level : Nat) : Format where
  name := tagName
  description := "XML-like tag dump with one tag pair per node"
  extensions := ["tag", "xml"]
  supportsSerialization := true
  serialize root := dumpText root level
  serializeWith root options := do
    let level ← levelWith level options
    dumpText root level
  log root options :=
    match levelWith level options with
    | .ok level => dumpLog root level
    | .error _ => []

/-! ## The interchange form -/

/-- The option for the pretty form. -/
def prettyOption : String := "pretty"

def jsonName : String := "json"

def styleOf (pretty : Bool) : Json.Style := if pretty then .pretty else .compact

/-- The tree of an interchange document as a format operation. -/
def parseJson (source : String) : Except FormatError Node :=
  (Interchange.read source).mapError FormatError.unreadable

/-- The setting that is left after all options have been taken. -/
def prettyWith (pretty : Bool) : Options → Except FormatError Bool
  | [] => .ok pretty
  | (key, value) :: rest =>
      if key = prettyOption then do
        let pretty ← parseBoolOption key value
        prettyWith pretty rest
      else .error (.notSupported jsonName (.option key))

/-- Interchange documents in the pretty or the compact form. -/
def jsonFormat (pretty : Bool) : Format where
  name := jsonName
  description := "Typed AST as kind-tagged JSON"
  extensions := ["json"]
  supportsParsing := true
  supportsSerialization := true
  parse := parseJson
  serialize root := .ok (Interchange.write (styleOf pretty) root)
  serializeWith root options := do
    let pretty ← prettyWith pretty options
    return Interchange.write (styleOf pretty) root

/-! ## From text to text -/

/-- The dump of an interchange document. -/
def jsonToTag (source : String) (level : Nat) : Except FormatError String := do
  let root ← parseJson source
  (tagFormat level).serialize root

/-- An interchange document in its normal form. -/
def normalizeJson (source : String) (pretty : Bool) : Except FormatError String := do
  let root ← parseJson source
  (jsonFormat pretty).serialize root

end SyntaxDump

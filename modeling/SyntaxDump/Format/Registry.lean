import SyntaxDump.Format.Builtin
import SyntaxDump.Format.FileName
import SyntaxDump.Text.Quoted

/-!
# The registry of formats

Formats by name, kept in the order of their names.  A format registered under
a name that is taken replaces the one before.
-/

namespace SyntaxDump

structure Registry where
  formats : List Format := []

namespace Registry

/-- Put a format in its place among formats sorted by name. -/
def insertSorted (format : Format) : List Format → List Format
  | [] => [format]
  | other :: rest =>
      if format.name < other.name then format :: other :: rest
      else if format.name = other.name then format :: rest
      else other :: insertSorted format rest

def empty : Registry := {}

def register (registry : Registry) (format : Format) : Registry :=
  ⟨insertSorted format registry.formats⟩

/-- The registry with the formats that are always there. -/
def standard : Registry := (empty.register (tagFormat 0)).register (jsonFormat false)

/-- The names of all formats in increasing order. -/
def names (registry : Registry) : List String := registry.formats.map (·.name)

def find? (registry : Registry) (name : String) : Option Format :=
  registry.formats.find? (·.name == name)

def has (registry : Registry) (name : String) : Bool := (registry.find? name).isSome

def get (registry : Registry) (name : String) : Except FormatError Format :=
  match registry.find? name with
  | some format => .ok format
  | none => .error (.notFound name)

/-- The first format that lists the extension of a file. -/
def detect? (registry : Registry) (fileName : String) : Option String := do
  let extension ← FileName.extension? fileName
  let format ← registry.formats.find? fun format => format.extensions.contains extension
  return format.name

def parse (registry : Registry) (source name : String) : Except FormatError Node := do
  let format ← registry.get name
  if format.supportsParsing then format.parse source
  else .error (.notSupported name .parsing)

def serializeWith (registry : Registry) (root : Node) (name : String) (options : Options) :
    Except FormatError String := do
  let format ← registry.get name
  if format.supportsSerialization then format.serializeWith root options
  else .error (.notSupported name .serialization)

def serialize (registry : Registry) (root : Node) (name : String) : Except FormatError String :=
  registry.serializeWith root name []

/-! ## Logging -/

/-- Options as they are shown in the log. -/
def optionsText (options : Options) : String :=
  "\x7b" ++ joinWith ", " (options.map fun (key, value) =>
    Text.quote key ++ ": " ++ Text.quote value) ++ "\x7d"

/-- What `parse` logs. -/
def parseLog (registry : Registry) (source name : String) : List LogRecord :=
  match registry.find? name with
  | some format =>
      if format.supportsParsing then
        [⟨.debug, "parsing " ++ Decimal.natText source.utf8ByteSize ++ " bytes as " ++ name⟩]
      else []
  | none => []

/-- What `serializeWith` logs. -/
def serializeLog (registry : Registry) (root : Node) (name : String) (options : Options) :
    List LogRecord :=
  match registry.find? name with
  | some format =>
      if format.supportsSerialization then
        ⟨.debug, "serializing " ++ root.label ++ " as " ++ name ++ " with " ++
          optionsText options⟩ :: format.log root options
      else []
  | none => []

end Registry
end SyntaxDump

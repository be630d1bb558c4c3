import SyntaxDump.CommandLine.Extras
import SyntaxDump.Format.Builtin

/-!
# Views of a tree

A view shows an interchange document to a reader: as a dump, or as JSON, which
is pretty unless the parameters say otherwise and ends with a line break.
-/

namespace SyntaxDump
namespace CommandLine

def tagView : String := "ast-tag"

def jsonView : String := "ast-json"

/-- The names of all views. -/
def viewNames : List String := [tagView, jsonView]

/-- Why a view cannot be shown. -/
inductive ViewError where
  | unreadable (error : FormatError)
  | dump (error : FormatError)
  | json (error : FormatError)
  | unknown (name : String)
deriving DecidableEq, Repr

def ViewError.message : ViewError → String
  | .unreadable error => "Transform failed: " ++ error.message
  | .dump error => error.message
  | .json error => "JSON serialization failed: " ++ error.message
  | .unknown name =>
      "Unknown transform '" ++ name ++ "'. Available: " ++ joinWith ", " viewNames

/-- The parameters of the JSON view. -/
def jsonViewOptions (parameters : Options) : Options :=
  if parameters.has prettyOption then parameters else parameters ++ [(prettyOption, "true")]

/-- The text of a view. -/
def viewText (source name : String) (parameters : Options) : Except ViewError String := do
  let root ← (parseJson source).mapError ViewError.unreadable
  if name = tagView then
    ((tagFormat 0).serializeWith root parameters).mapError ViewError.dump
  else if name = jsonView then
    let text ← ((jsonFormat false).serializeWith root (jsonViewOptions parameters)).mapError
      ViewError.json
    return text ++ "\n"
  else .error (.unknown name)

/-- What showing a view logs. -/
def viewLog (source name : String) (parameters : Options) : List LogRecord :=
  match parseJson source with
  | .ok root => if name = tagView then (tagFormat 0).log root parameters else []
  | .error _ => []

end CommandLine
end SyntaxDump

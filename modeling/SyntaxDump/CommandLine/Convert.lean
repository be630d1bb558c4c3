import SyntaxDump.CommandLine.FileTree
import SyntaxDump.CommandLine.Overrides
import SyntaxDump.CommandLine.View
import SyntaxDump.Format.Registry

/-!
# What the commands compute

Everything that the two commands do between reading a file and writing the
result.
-/

namespace SyntaxDump
namespace CommandLine

/-- Why a command fails. -/
inductive CommandError where
  | option (error : OptionError)
  /-- the extension of the file belongs to no format -/
  | undetected (input : String)
  | format (error : FormatError)
  | reading (path : String) (error : FileError)
  | parsing (error : FormatError)
  | serialization (error : FormatError)
  | writing (path : String) (error : FileError)
  | view (error : ViewError)
deriving DecidableEq, Repr

namespace CommandError

def message : CommandError → String
  | .option error => "Error: " ++ error.message
  | .undetected input =>
      "Error: Could not detect format from filename '" ++ input ++
        "'\nPlease specify --from explicitly"
  | .format error => "Error: " ++ error.message
  | .reading path error => "Error reading file '" ++ path ++ "': " ++ error.message
  | .parsing error => "Parse error: " ++ error.message
  | .serialization error => "Serialization error: " ++ error.message
  | .writing path error => "Error writing file '" ++ path ++ "': " ++ error.message
  | .view error => "Execution error: " ++ error.message

/-- Is a line of the dump indented further than can be written?  That ends the
program at once. -/
def isTooDeep : CommandError → Bool
  | .serialization .tooDeep => true
  | .view (.dump .tooDeep) => true
  | _ => false

end CommandError

/-! ## Conversions -/

/-- The source format of a conversion. -/
def sourceFormat (input : String) (source : Option String) : Except CommandError String :=
  match source.or (Registry.standard.detect? input) with
  | some name => .ok name
  | none => .error (.undetected input)

/-- Refuse formats that do not exist, and options that do not belong to the
target. -/
def permit (extras : Options) (source target : String) : Except CommandError Unit := do
  (checkTargets extras target).mapError CommandError.option
  let _ ← (Registry.standard.get source).mapError CommandError.format
  let _ ← (Registry.standard.get target).mapError CommandError.format
  return ()

/-- The options of the target: those of the configuration and, on top of them,
the extra parameters that are left. -/
def targetOptions (config : Config) (extras : Options) (target : String) : Options :=
  (configuredOptions config target).assignAll extras

/-- A text that is not empty ends with a line break. -/
def endLine (text : String) : String :=
  match text.toList.getLast? with
  | none => text
  | some c => if c = '\n' then text else text ++ "\n"

/-- The result of converting a text. -/
def convertText (config : Config) (extras : Options) (source target text : String) :
    Except CommandError String := do
  let root ← (Registry.standard.parse text source).mapError CommandError.parsing
  let result ← (Registry.standard.serializeWith root target
    (targetOptions config extras target)).mapError CommandError.serialization
  return endLine result

/-- What converting a text logs. -/
def convertLog (config : Config) (extras : Options) (source target text : String) :
    List LogRecord :=
  Registry.standard.parseLog text source ++
    match Registry.standard.parse text source with
    | .ok root =>
        Registry.standard.serializeLog root target (targetOptions config extras target)
    | .error _ => []

/-! ## Views -/

/-- The parameters of a view: dumps take their level from the configuration,
and the extra parameters go on top. -/
def viewParameters (config : Config) (extras : Options) (view : String) : Options :=
  (if view = tagView then configuredOptions config tagName else []).assignAll extras

/-- The result of showing a text. -/
def inspectText (config : Config) (extras : Options) (view text : String) :
    Except CommandError String :=
  (viewText text view (viewParameters config extras view)).mapError CommandError.view

/-- What showing a text logs. -/
def inspectLog (config : Config) (extras : Options) (view text : String) : List LogRecord :=
  viewLog text view (viewParameters config extras view)

end CommandLine
end SyntaxDump

import SyntaxDump.Interchange.Document

/-!
# Formats

A format has a name and may read trees from texts and write them as texts.
What a format does not provide is an error that names it.  Options are pairs
of a key and a value.
-/

namespace SyntaxDump

/-- What a format does not do. -/
inductive Unsupported where
  | parsing
  | serialization
  /-- any option at all -/
  | options
  /-- the option with this key -/
  | option (key : String)
deriving DecidableEq, Repr

def Unsupported.message : Unsupported → String
  | .parsing => "parsing"
  | .serialization => "serialization"
  | .options => "extra parameters"
  | .option key => "option '" ++ key ++ "'"

/-- `Format 'name' does not support …` -/
def unsupportedMessage (format : String) (what : Unsupported) : String :=
  "Format '" ++ format ++ "' does not support " ++ what.message

/-- Why a format operation fails. -/
inductive FormatError where
  | notFound (name : String)
  | unreadable (error : Interchange.ReadError)
  | notSupported (format : String) (what : Unsupported)
  | invalidOption (option value : String)
  /-- a line of a dump is indented further than can be written -/
  | tooDeep
deriving DecidableEq, Repr

def FormatError.message : FormatError → String
  | .notFound name => "Format '" ++ name ++ "' not found"
  | .unreadable error => "Parse error: " ++ error.message
  | .notSupported format what => "Operation not supported: " ++ unsupportedMessage format what
  | .invalidOption option value =>
      "Invalid value '" ++ value ++ "' for option '" ++ option ++ "'"
  | .tooDeep => "Formatting argument out of range"

/-- Options by key. -/
abbrev Options := List (String × String)

/-! ## Logging -/

/-- How important a log record is. -/
inductive Severity where
  | error
  | warn
  | info
  | debug
  | trace
deriving DecidableEq, Repr

/-- A message for the log. -/
structure LogRecord where
  severity : Severity
  message : String
deriving DecidableEq, Repr

/-! ## The operations of a format -/

/-- A way to read and write trees.  A format that only has a name supports
nothing. -/
structure Format where
  name : String
  description : String := ""
  extensions : List String := []
  supportsParsing : Bool := false
  supportsSerialization : Bool := false
  parse : String → Except FormatError Node := fun _ => .error (.notSupported name .parsing)
  serialize : Node → Except FormatError String := fun _ =>
    .error (.notSupported name .serialization)
  serializeWith : Node → Options → Except FormatError String := fun root options =>
    if options.isEmpty then serialize root else .error (.notSupported name .options)
  /-- what `serializeWith` logs -/
  log : Node → Options → List LogRecord := fun _ _ => []

/-- The value of an option that is on or off, in any case of letters. -/
def parseBoolOption (option value : String) : Except FormatError Bool :=
  let word := String.ofList (value.toList.map Char.toLower)
  if word ∈ ["true", "1", "yes", "y"] then .ok true
  else if word ∈ ["false", "0", "no", "n"] then .ok false
  else .error (.invalidOption option value)

end SyntaxDump

import SyntaxDump.Format.Basic

/-!
# How much is logged

Warnings and errors are logged unless the user asks for more or for less.  Each
request moves the level by one step.
-/

namespace SyntaxDump

def Severity.name : Severity → String
  | .error => "ERROR"
  | .warn => "WARN"
  | .info => "INFO"
  | .debug => "DEBUG"
  | .trace => "TRACE"

/-- Errors come first. -/
def Severity.rank : Severity → Nat
  | .error => 1
  | .warn => 2
  | .info => 3
  | .debug => 4
  | .trace => 5

def LogRecord.text (entry : LogRecord) : String :=
  entry.severity.name ++ ": " ++ entry.message ++ "\n"

namespace CommandLine

/-- The greatest severity rank that is logged. -/
structure Verbosity where
  rank : Nat
deriving DecidableEq, Repr

namespace Verbosity

/-- The rank that is logged if nothing is asked for. -/
def usual : Nat := Severity.warn.rank

/-- The verbosity after requests for more and for less. -/
def ofCounts (more less : Nat) : Verbosity := ⟨min (usual + more - less) Severity.trace.rank⟩

def name (verbosity : Verbosity) : String :=
  match [Severity.error, .warn, .info, .debug, .trace].find? (·.rank == verbosity.rank) with
  | some severity => severity.name
  | none => "OFF"

def shows (verbosity : Verbosity) (entry : LogRecord) : Bool :=
  decide (entry.severity.rank ≤ verbosity.rank)

/-- The lines of a log that are shown. -/
def logText (verbosity : Verbosity) (log : List LogRecord) : String :=
  String.join ((log.filter verbosity.shows).map LogRecord.text)

end Verbosity
end CommandLine
end SyntaxDump

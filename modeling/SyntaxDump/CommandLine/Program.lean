import SyntaxDump.CommandLine.Convert
import SyntaxDump.CommandLine.Invocation
import SyntaxDump.CommandLine.Verbosity
import SyntaxDump.Config.Loader

/-!
# The program

The program reads files and writes one through a host; what it prints and how
it ends is its report.
-/

namespace SyntaxDump
namespace CommandLine

/-- Access to files. -/
structure Host (m : Type → Type) where
  /-- is there an ordinary file, neither a directory nor a device? -/
  isFile : String → m Bool
  read : String → m (Except FileError String)
  write : (path text : String) → m (Except FileError Unit)

/-- A host whose files are in memory. -/
def memoryHost : Host (StateM FileTree) where
  isFile path := fun tree => (tree.isFile path, tree)
  read path := fun tree => (tree.read path, tree)
  write path text := fun tree =>
    match tree.write path text with
    | .ok tree => (.ok (), tree)
    | .error error => (.error error, tree)

/-- What the program has printed, and its exit status. -/
structure Report where
  exit : UInt32
  stdout : String
  stderr : String
deriving DecidableEq, Repr

namespace Report

/-- The program has done what it was asked to. -/
def done (stdout log : String) : Report := ⟨0, stdout, log⟩

/-- The program has failed. -/
def failed (message log : String) : Report := ⟨1, "", log ++ message ++ "\n"⟩

/-- The program was stopped by an indentation that cannot be written. -/
def aborted (log : String) : Report := ⟨101, "", log ++ FormatError.tooDeep.message ++ "\n"⟩

def ofError (error : CommandError) (log : String) : Report :=
  if error.isTooDeep then aborted log else failed error.message log

end Report

/-! ## Fixed texts -/

def versionText : String := "mml-dump 0.1.0\n"

def helpText : String :=
  "Dump typed MML syntax trees as tagged text\n\n" ++
    "Usage: mml-dump [OPTIONS] [COMMAND]\n\n" ++
    "Commands:\n" ++
    "  inspect  Show a view of a tree on stdout\n" ++
    "  convert  Write a tree in another format (default command)\n" ++
    "  help     Print this message\n"

/-- The report of a run that ends with the arguments. -/
def Stop.report : Stop → Report
  | .usage error => ⟨2, "", "error: " ++ error.message ++ "\n"⟩
  | .nothingGiven => ⟨2, "", helpText⟩
  | .help => .done helpText ""
  | .version => .done versionText ""

/-- The least width of a name in the list of formats. -/
def nameWidth : Nat := 6

/-- A line of the list of formats. -/
def formatLine (format : Format) : String :=
  let modes := (if format.supportsParsing then ["read"] else []) ++
    (if format.supportsSerialization then ["write"] else [])
  "  " ++ format.name ++ String.ofList (List.replicate (nameWidth - format.name.length) ' ') ++
    " " ++ format.description ++ " [" ++ joinWith "/" modes ++ "] (." ++
    joinWith ", ." format.extensions ++ ")\n"

/-- The formats and the views. -/
def formatList : String :=
  "Available formats:\n\n" ++ String.join (Registry.standard.formats.map formatLine) ++
    "\nInspect transforms:\n" ++ String.join (viewNames.map fun name => "  " ++ name ++ "\n")

/-! ## Running -/

section

variable {m : Type → Type} [Monad m]

/-- The file in the working directory that is read if it exists. -/
def localConfig : String := "mml.toml"

/-- The layers of the configuration. -/
def loaderFor (path : Option String) : Config.Loader :=
  let loader := ({} : Config.Loader).withFile localConfig false
  match path with
  | some path => loader.withFile path true
  | none => loader

/-- Load the configuration: read all files that may matter and put together
those that exist. -/
def loadConfig (host : Host m) (path : Option String) :
    m (Except Config.LoadError Config) := do
  let loader := loaderFor path
  let names := loader.layers.flatMap fun layer => Config.candidates layer.name
  let texts ← names.mapM fun name => do
    if ← host.isFile name then
      let result ← host.read name
      return (name, result.toOption)
    else return (name, none)
  return loader.build fun name => (texts.lookup name).join

/-- Show a view of a file. -/
def runInspect (host : Host m) (verbosity : Verbosity) (config : Config) (extras : Options)
    (path view : String) : m Report := do
  match ← host.read path with
  | .error error => return .ofError (.reading path error) ""
  | .ok text =>
      let log := verbosity.logText (inspectLog config extras view text)
      match inspectText config extras view text with
      | .error error => return .ofError error log
      | .ok result => return .done result log

/-- Print a result, or write it into a file. -/
def deliver (host : Host m) (verbosity : Verbosity) (target : String) (output : Option String)
    (result log : String) : m Report := do
  match output with
  | none => return .done result log
  | some path =>
      match ← host.write path result with
      | .error error => return .ofError (.writing path error) log
      | .ok () =>
          let note : LogRecord := ⟨.info, "wrote " ++ target ++ " output to " ++ path⟩
          return .done "" (log ++ verbosity.logText [note])

/-- Convert a file.  `given` are all extra parameters, `extras` those that have
not gone into the configuration. -/
def runConvert (host : Host m) (verbosity : Verbosity) (config : Config)
    (given extras : Options) (input : String) (source : Option String) (target : String)
    (output : Option String) : m Report := do
  match (do
      let source ← sourceFormat input source
      permit given source target
      return source : Except CommandError String) with
  | .error error => return .ofError error ""
  | .ok source =>
      match ← host.read input with
      | .error error => return .ofError (.reading input error) ""
      | .ok text =>
          let log := verbosity.logText (convertLog config extras source target text)
          match convertText config extras source target text with
          | .error error => return .ofError error log
          | .ok result => deliver host verbosity target output result log

/-- Run a command. -/
def runCommand (host : Host m) (verbosity : Verbosity) (config : Config)
    (given extras : Options) : Option Command → m Report
  | some (.inspect path view) => runInspect host verbosity config given path view
  | some (.convert input source target output) =>
      runConvert host verbosity config given extras input source target output
  | none => return .failed "Unknown subcommand. Use --help for usage information." ""

/-- Run the program on its arguments. -/
def run (host : Host m) (arguments : List String) : m Report := do
  let split := splitExtras arguments
  match readArguments split.arguments with
  | .error stop => return stop.report
  | .ok invocation =>
      if invocation.listFormats then return .done formatList ""
      else
        match ← loadConfig host invocation.configPath with
        | .error error => return .failed ("Failed to load configuration: " ++ error.message) ""
        | .ok config =>
            let overridden := override config split.extras
            match overridden.error with
            | some error => return .ofError (.option error) ""
            | none =>
                runCommand host (Verbosity.ofCounts invocation.more invocation.less)
                  overridden.config split.extras overridden.extras invocation.command

end

end CommandLine
end SyntaxDump

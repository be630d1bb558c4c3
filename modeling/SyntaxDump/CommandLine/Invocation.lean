import SyntaxDump.CommandLine.Extras
import SyntaxDump.CommandLine.Grammar
import SyntaxDump.CommandLine.View

/-!
# Invocations

The program has two commands: one shows a view of a tree, the other converts a
file to another format.  Arguments that name no command but start with a file
are taken as those of a conversion.
-/

namespace SyntaxDump
namespace CommandLine

/-! ## The grammar of the program -/

/-- Switches that stand before or behind a command. -/
def commonSwitches : List Switch :=
  [⟨"list-formats", none, .flag⟩, ⟨"config", none, .value "PATH"⟩,
    ⟨"verbose", some 'v', .count⟩, ⟨"quiet", some 'q', .count⟩, ⟨"help", some 'h', .help⟩]

def inspectCommand : String := "inspect"

def convertCommand : String := "convert"

def helpCommand : String := "help"

def commandNames : List String := [inspectCommand, convertCommand, helpCommand]

def topGrammar : Grammar where
  switches := commonSwitches ++ [⟨"version", some 'V', .version⟩]
  commands := commandNames

def inspectGrammar : Grammar where
  switches := commonSwitches
  operands := [⟨"path", true, none⟩, ⟨"transform", false, some viewNames⟩]

def convertGrammar : Grammar where
  switches := commonSwitches ++
    [⟨"from", none, .value "from"⟩, ⟨"to", none, .value "to"⟩,
      ⟨"output", some 'o', .value "output"⟩]
  operands := [⟨"input", true, none⟩]
  required := ["to"]

/-! ## What is asked for -/

inductive Command where
  /-- show a view of a file -/
  | inspect (path view : String)
  /-- convert a file; without a source format that is detected, and without an
  output file the result is printed -/
  | convert (input : String) (source : Option String) (target : String) (output : Option String)
deriving DecidableEq, Repr

structure Invocation where
  listFormats : Bool
  configPath : Option String
  more : Nat
  less : Nat
  command : Option Command
deriving DecidableEq, Repr

/-- The view that is shown if none is named. -/
def defaultView : String := tagView

/-- What was said about a common switch: behind the command if there, else
before it. -/
def invocation (before behind : Matched) (command : Option Command) : Invocation :=
  let count (name : String) : Nat :=
    if behind.count name = 0 then before.count name else behind.count name
  { listFormats := count "list-formats" != 0
    configPath := (behind.value? "config").or (before.value? "config")
    more := count "verbose"
    less := count "quiet"
    command }

/-- The arguments of the command that shows views. -/
def parseInspect (arguments : List String) : Except Stop (Matched × Option Command) := do
  let (state, _) ← inspectGrammar.parse inspectGrammar.start arguments
  let matched ← inspectGrammar.finish state
  return (matched, (matched.value? "path").map fun path =>
    .inspect path ((matched.value? "transform").getD defaultView))

/-- The arguments of the command that converts files. -/
def parseConvert (arguments : List String) : Except Stop (Matched × Option Command) := do
  let (state, _) ← convertGrammar.parse convertGrammar.start arguments
  let matched ← convertGrammar.finish state
  return (matched, do
    let input ← matched.value? "input"
    let target ← matched.value? "to"
    return .convert input (matched.value? "from") target (matched.value? "output"))

/-- Help is there for every command, and commands have no commands of their
own. -/
def parseHelp (arguments : List String) : Stop :=
  match arguments with
  | [] => .help
  | name :: rest =>
      if commandNames.contains name then
        match rest with
        | [] => .help
        | other :: _ => .usage (.unknownCommand other)
      else .usage (.unknownCommand name)

/-- The invocation that the arguments literally describe. -/
def parseArguments (arguments : List String) : Except Stop Invocation := do
  let (state, command) ← topGrammar.parse topGrammar.start arguments
  match command with
  | none =>
      let matched ← topGrammar.finish state
      if matched.isEmpty then .error .nothingGiven
      else return invocation matched {} none
  | some (name, rest) =>
      if name = helpCommand then .error (parseHelp rest)
      else
        let (behind, command) ←
          if name = inspectCommand then parseInspect rest else parseConvert rest
        let before ← topGrammar.finish state
        return invocation before behind command

/-- The invocation that the arguments describe, if need be with the command
for conversions in front of them. -/
def readArguments (arguments : List String) : Except Stop Invocation :=
  match parseArguments arguments, arguments with
  | .error stop, first :: _ =>
      if startsWithDash first || commandNames.contains first then .error stop
      else parseArguments (convertCommand :: arguments)
  | result, _ => result

end CommandLine
end SyntaxDump

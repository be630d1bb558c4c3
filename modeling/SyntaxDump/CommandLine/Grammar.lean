import SyntaxDump.Format.FileName
import SyntaxDump.Text.Plain

/-!
# Argument grammars

A grammar says which switches and operands a command has.  Arguments are taken
from left to right.  A switch that takes a value and an operand stay pending
until it is clear what follows them: they are recorded at the next switch or
operand, or at the end.  An argument that no rule allows is reported at once,
before anything that is wrong with what is still pending.
-/

namespace SyntaxDump
namespace CommandLine

/-! ## Switches and operands -/

/-- What a switch does. -/
inductive Action where
  /-- it is given at most once -/
  | flag
  /-- the number of times it is given counts -/
  | count
  /-- it takes a value, called so in messages -/
  | value (placeholder : String)
  | help
  | version
deriving DecidableEq, Repr

structure Switch where
  long : String
  short : Option Char
  action : Action
deriving DecidableEq, Repr

/-- A switch as it is shown in messages. -/
def Switch.shown (switch : Switch) : String :=
  "--" ++ switch.long ++
    match switch.action with
    | .count => "..."
    | .value placeholder => " <" ++ placeholder ++ ">"
    | _ => ""

def Switch.takesValue (switch : Switch) : Bool :=
  match switch.action with
  | .value _ => true
  | _ => false

/-- An argument that is known by its place. -/
structure Operand where
  name : String
  required : Bool
  /-- the values that are allowed, if not all are -/
  choices : Option (List String)
deriving DecidableEq, Repr

/-- An operand as it is shown in messages. -/
def Operand.shown (operand : Operand) : String :=
  if operand.required then "<" ++ operand.name ++ ">" else "[" ++ operand.name ++ "]"

def Operand.allows (operand : Operand) (value : String) : Bool :=
  operand.choices.all (·.contains value)

structure Grammar where
  switches : List Switch
  operands : List Operand := []
  /-- switches that must be given -/
  required : List String := []
  /-- commands, each of which ends the arguments of this grammar -/
  commands : List String := []

/-! ## Errors -/

/-- What is wrong with the arguments. -/
inductive UsageError where
  | unexpectedArgument (argument : String)
  | missingValue (shown : String)
  | surplusValue (value shown : String)
  | repeated (shown : String)
  | invalidValue (value shown : String)
  | unknownCommand (name : String)
  | missingRequired
deriving DecidableEq, Repr

/-- The message of an error, in which arguments are shown as plain texts. -/
def UsageError.message : UsageError → String
  | .unexpectedArgument argument => "unexpected argument '" ++ Text.plain argument ++ "' found"
  | .missingValue shown => "a value is required for '" ++ shown ++ "' but none was supplied"
  | .surplusValue value shown =>
      "unexpected value '" ++ Text.plain value ++ "' for '" ++ shown ++
        "' found; no more were expected"
  | .repeated shown => "the argument '" ++ shown ++ "' cannot be used multiple times"
  | .invalidValue value shown =>
      "invalid value '" ++ Text.plain value ++ "' for '" ++ shown ++ "'"
  | .unknownCommand name => "unrecognized subcommand '" ++ Text.plain name ++ "'"
  | .missingRequired => "the following required arguments were not provided:"

/-- Why there is nothing to run. -/
inductive Stop where
  | usage (error : UsageError)
  /-- no arguments at all -/
  | nothingGiven
  /-- the user asks for help -/
  | help
  /-- the user asks for the version -/
  | version
deriving DecidableEq, Repr

/-! ## States -/

/-- What the arguments have said so far. -/
structure Matched where
  /-- the values of switches and operands by name -/
  values : List (String × String) := []
  /-- how often switches without values were given -/
  counts : List (String × Nat) := []
deriving DecidableEq, Repr

def Matched.value? (matched : Matched) (name : String) : Option String :=
  matched.values.lookup name

def Matched.count (matched : Matched) (name : String) : Nat := (matched.counts.lookup name).getD 0

def Matched.isEmpty (matched : Matched) : Bool :=
  matched.values.isEmpty && matched.counts.isEmpty

/-- What is waiting to be recorded. -/
inductive Pending where
  | nothing
  /-- a switch whose value has not come yet -/
  | awaiting (switch : Switch)
  | switch (switch : Switch) (value : String)
  | operand (operand : Operand) (value : String)
deriving DecidableEq, Repr

structure ParseState where
  matched : Matched := {}
  pending : Pending := .nothing
  /-- the operands that have not come yet -/
  operands : List Operand
  /-- from here on no argument is a switch or a command -/
  literal : Bool := false

namespace ParseState

/-- The greatest count. -/
def maxCount : Nat := 255

/-- Record the value of a switch, which may come only once. -/
def recordSwitch (state : ParseState) (switch : Switch) (value : String) :
    Except Stop ParseState :=
  if (state.matched.value? switch.long).isSome then .error (.usage (.repeated switch.shown))
  else .ok { state with matched := { state.matched with
                                     values := (switch.long, value) :: state.matched.values } }

/-- Record the value of an operand; no value at all counts as missing. -/
def recordOperand (state : ParseState) (operand : Operand) (value : String) :
    Except Stop ParseState :=
  if operand.allows value then
    .ok { state with matched := { state.matched with
                                  values := (operand.name, value) :: state.matched.values } }
  else if value = "" then .error (.usage (.missingValue operand.shown))
  else .error (.usage (.invalidValue value operand.shown))

/-- Record what is pending. -/
def commit (state : ParseState) : Except Stop ParseState :=
  let cleared := { state with pending := .nothing }
  match state.pending with
  | .nothing => .ok cleared
  | .awaiting switch => .error (.usage (.missingValue switch.shown))
  | .switch switch value => cleared.recordSwitch switch value
  | .operand operand value => cleared.recordOperand operand value

/-- Count a switch without a value. -/
def increment (state : ParseState) (name : String) : ParseState :=
  let count := min (state.matched.count name + 1) maxCount
  { state with matched := { state.matched with
                            counts := (name, count) :: state.matched.counts } }

/-- Take a switch that stands alone. -/
def takeSwitch (state : ParseState) (switch : Switch) : Except Stop ParseState := do
  let state ← state.commit
  match switch.action with
  | .flag =>
      if state.matched.count switch.long = 0 then .ok (state.increment switch.long)
      else .error (.usage (.repeated switch.shown))
  | .count => .ok (state.increment switch.long)
  | .value _ => .ok { state with pending := .awaiting switch }
  | .help => .error .help
  | .version => .error .version

/-- Take a switch with a value attached to it. -/
def takeAttached (state : ParseState) (switch : Switch) (value : String) :
    Except Stop ParseState := do
  if switch.takesValue then
    let state ← state.commit
    state.recordSwitch switch value
  else .error (.usage (.surplusValue value switch.shown))

end ParseState

/-! ## Arguments -/

namespace Grammar

def start (grammar : Grammar) : ParseState := { operands := grammar.operands }

/-- Take a switch given by its long name, with the value behind a sign of
equality if there is one. -/
def takeLong (grammar : Grammar) (state : ParseState) (name : String) (value : Option String) :
    Except Stop ParseState :=
  match grammar.switches.find? (·.long == name) with
  | none => .error (.usage (.unexpectedArgument ("--" ++ name)))
  | some switch =>
      match value with
      | some value => state.takeAttached switch value
      | none => state.takeSwitch switch

/-- The value attached to a letter, behind an optional sign of equality. -/
def attachedValue : List Char → String
  | '=' :: rest => String.ofList rest
  | cs => String.ofList cs

/-- Take a cluster of letters.  A switch that takes a value takes the rest of
the cluster. -/
def takeShort (grammar : Grammar) : ParseState → List Char → Except Stop ParseState
  | state, [] => .ok state
  | state, c :: rest =>
      match grammar.switches.find? (·.short == some c) with
      | none => .error (.usage (.unexpectedArgument (String.ofList ['-', c])))
      | some switch =>
          if switch.takesValue && !rest.isEmpty then state.takeAttached switch (attachedValue rest)
          else do
            let state ← state.takeSwitch switch
            takeShort grammar state rest

/-- Take an argument by its place. -/
def takeOperand (grammar : Grammar) (state : ParseState) (argument : String) :
    Except Stop ParseState :=
  match state.operands with
  | operand :: rest => do
      let state ← state.commit
      return { state with operands := rest, pending := .operand operand argument }
  | [] =>
      if grammar.commands.isEmpty || (state.literal && grammar.commands.contains argument) then
        .error (.usage (.unexpectedArgument argument))
      else .error (.usage (.unknownCommand argument))

/-- The name and the value of a long switch. -/
def splitLong (cs : List Char) : String × Option String :=
  let name := String.ofList (cs.takeWhile (· != '='))
  match cs.dropWhile (· != '=') with
  | _ :: value => (name, some (String.ofList value))
  | [] => (name, none)

/-- Take an argument that is no command. -/
def takeArgument (grammar : Grammar) (state : ParseState) (argument : String) :
    Except Stop ParseState :=
  if state.literal then grammar.takeOperand state argument
  else
    match argument.toList with
    | ['-', '-'] => .ok { state with literal := true }
    | '-' :: '-' :: rest =>
        let (name, value) := splitLong rest
        grammar.takeLong state name value
    | '-' :: c :: rest => grammar.takeShort state (c :: rest)
    | _ =>
        match state.pending with
        | .awaiting switch => .ok { state with pending := .switch switch argument }
        | _ => grammar.takeOperand state argument

/-- Is the argument the name of a command? -/
def isCommand (grammar : Grammar) (state : ParseState) (argument : String) : Bool :=
  !state.literal && grammar.commands.contains argument &&
    match state.pending with
    | .awaiting _ => false
    | _ => true

/-- Take all arguments up to a command; also returns the command and what
follows it. -/
def parse (grammar : Grammar) :
    ParseState → List String → Except Stop (ParseState × Option (String × List String))
  | state, [] => .ok (state, none)
  | state, argument :: rest =>
      if grammar.isCommand state argument then .ok (state, some (argument, rest))
      else do
        let state ← grammar.takeArgument state argument
        parse grammar state rest

/-- Record what is pending at the end and see to it that nothing is missing. -/
def finish (grammar : Grammar) (state : ParseState) : Except Stop Matched := do
  let state ← state.commit
  if state.operands.any (·.required) ||
      grammar.required.any (fun name => (state.matched.value? name).isNone) then
    .error (.usage .missingRequired)
  else return state.matched

end Grammar
end CommandLine
end SyntaxDump

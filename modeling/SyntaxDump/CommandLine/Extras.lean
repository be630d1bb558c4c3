import SyntaxDump.Format.Basic

/-!
# Extra parameters

Arguments of the form `--extra-key`, or `--extras-key`, carry options for
formats.  The argument behind one of them is its value, unless it starts with a
dash; without a value the option is `true`.  All other arguments are left to
the rest of the program.
-/

namespace SyntaxDump

namespace Options

/-- Give an option a value; one that it had before is replaced. -/
def assign (options : Options) (key value : String) : Options :=
  match options with
  | [] => [(key, value)]
  | (other, old) :: rest =>
      if other = key then (key, value) :: rest else (other, old) :: assign rest key value

/-- Give several options their values. -/
def assignAll (options more : Options) : Options :=
  more.foldl (fun options (key, value) => options.assign key value) options

def has (options : Options) (key : String) : Bool := options.any (·.1 == key)

/-- All options but one. -/
def without (options : Options) (key : String) : Options := options.filter (·.1 != key)

end Options

namespace CommandLine

/-- The key of an extra parameter. -/
def extraKey? (argument : String) : Option String :=
  let key? (start : String) := start.toList.isPrefixOf? argument.toList
  ((key? "--extra-").or (key? "--extras-")).map String.ofList

def startsWithDash (argument : String) : Bool := argument.toList.head? == some '-'

/-- The value of an extra parameter that has none of its own. -/
def defaultExtra : String := "true"

/-- Arguments parted into extra parameters and others. -/
structure Split where
  arguments : List String
  extras : Options
deriving DecidableEq, Repr

namespace Split

def addArgument (argument : String) (later : Split) : Split :=
  { later with arguments := argument :: later.arguments }

/-- Add an extra parameter in front of those that come later, which win. -/
def addExtra (key value : String) (later : Split) : Split :=
  if later.extras.has key then later else { later with extras := (key, value) :: later.extras }

end Split

/-- Part the extra parameters from the other arguments. -/
def splitExtras : List String → Split
  | [] => ⟨[], []⟩
  | argument :: rest =>
      match extraKey? argument with
      | none => (splitExtras rest).addArgument argument
      | some key =>
          match rest with
          | [] => ⟨[], [(key, defaultExtra)]⟩
          | value :: later =>
              if startsWithDash value then (splitExtras (value :: later)).addExtra key defaultExtra
              else (splitExtras later).addExtra key value

end CommandLine
end SyntaxDump

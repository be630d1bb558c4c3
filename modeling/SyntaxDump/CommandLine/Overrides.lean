import SyntaxDump.CommandLine.Extras
import SyntaxDump.Config.Decode

/-!
# Options and the configuration

Two extra parameters override settings of the configuration, one for each
format.  The configuration in turn gives every format its options.
-/

namespace SyntaxDump
namespace CommandLine

/-- What is wrong with an extra parameter. -/
inductive OptionError where
  | invalidLevel (value : String)
  | invalid (error : FormatError)
  /-- the option belongs to another format -/
  | wrongTarget (format option : String)
deriving DecidableEq, Repr

def OptionError.message : OptionError → String
  | .invalidLevel value => "Invalid value '" ++ value ++ "' for --extra-" ++ initialLevelOption
  | .invalid error => error.message
  | .wrongTarget format option => unsupportedMessage format (.option option)

/-! ## From parameters to the configuration -/

/-- The configuration and the extra parameters that are left, and the error
that ended the overriding, if there was one. -/
structure Overridden where
  config : Config
  extras : Options
  error : Option OptionError

/-- Take the level of dumps from the extra parameters. -/
def overrideLevel (config : Config) (extras : Options) : Overridden :=
  match extras.lookup initialLevelOption with
  | none => ⟨config, extras, none⟩
  | some value =>
      let extras := extras.without initialLevelOption
      match Decimal.readWord? value with
      | some level => ⟨{ config with initialLevel := UInt64.ofNat level }, extras, none⟩
      | none => ⟨config, extras, some (.invalidLevel value)⟩

/-- Take the form of JSON from the extra parameters. -/
def overridePretty (config : Config) (extras : Options) : Overridden :=
  match extras.lookup prettyOption with
  | none => ⟨config, extras, none⟩
  | some value =>
      let extras := extras.without prettyOption
      match parseBoolOption prettyOption value with
      | .ok pretty => ⟨{ config with pretty }, extras, none⟩
      | .error error => ⟨config, extras, some (.invalid error)⟩

/-- Override the configuration.  The first parameter that is at fault ends it. -/
def override (config : Config) (extras : Options) : Overridden :=
  let first := overrideLevel config extras
  match first.error with
  | some _ => first
  | none => overridePretty first.config first.extras

/-! ## From the configuration to options -/

/-- The options that override settings, each with its format. -/
def optionTargets : List (String × String) :=
  [(initialLevelOption, tagName), (prettyOption, jsonName)]

/-- Refuse an option whose format is not the target. -/
def checkTargets (extras : Options) (target : String) : Except OptionError Unit :=
  match optionTargets.find? fun (option, format) => target != format && extras.has option with
  | some (option, _) => .error (.wrongTarget target option)
  | none => .ok ()

/-- The options that the configuration gives a format. -/
def configuredOptions (config : Config) (format : String) : Options :=
  if format = tagName then
    [(initialLevelOption, Decimal.natText config.initialLevel.toNat)]
  else if format = jsonName then
    [(prettyOption, if config.pretty then "true" else "false")]
  else []

end CommandLine
end SyntaxDump

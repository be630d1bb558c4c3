import Mathlib.Tactic
import SyntaxDump.Proofs.CommandLine.Commands
import SyntaxDump.Proofs.Format.Options

/-!
# From the configuration to a text

A setting of the configuration reaches a format in one of two ways.  Either the
format is made with it, or it is written into an option, which the format reads
again and which overrides the setting that the format was made with.  Both ways
have the same outcome, whether it is a text or a dump that is too deep, and so
have the three ways from a source text to its dump.
-/

namespace SyntaxDump

/-- A single option overrides what the loop started with. -/
theorem TakesOption.eq_ok_singleton {α : Type} {key format : String} {read : String → Option α}
    {take : α → Options → Except FormatError α} (htakes : TakesOption key format read take)
    {value : String} {result : α} (hvalue : read value = some result) (start : α) :
    take start [(key, value)] = .ok result := by
  rw [htakes.taken hvalue, htakes.nil]

theorem exists_unreadable_of_parseJson {source : String} {error : FormatError}
    (herror : parseJson source = .error error) :
    ∃ cause, error = .unreadable cause := by
  rw [parseJson] at herror
  cases hread : Interchange.read source with
  | error cause =>
      rw [hread] at herror
      exact ⟨cause, (Except.error.inj herror).symm⟩
  | ok root =>
      rw [hread] at herror
      cases herror

namespace CommandLine

/-- The level survives being written in decimal and read again, since it is a
word of 64 bits. -/
theorem levelWith_configuredOptions (config : Config) (start : Nat) :
    levelWith start (configuredOptions config tagName) = .ok config.initialLevel.toNat := by
  have hread : Decimal.readWord? (Decimal.natText config.initialLevel.toNat) =
      some config.initialLevel.toNat := Decimal.readWord?_natText config.initialLevel.toNat_lt
  exact takesOption_levelWith.eq_ok_singleton hread start

theorem prettyWith_configuredOptions (config : Config) (start : Bool) :
    prettyWith start (configuredOptions config jsonName) = .ok config.pretty := by
  have hread : readPretty? (if config.pretty then "true" else "false") = some config.pretty := by
    rw [readPretty?, parseBoolOption_boolText]
    rfl
  exact takesOption_prettyWith.eq_ok_singleton hread start

theorem tagFormat_serializeWith_configuredOptions (config : Config) (root : Node) (level : Nat) :
    (tagFormat level).serializeWith root (configuredOptions config tagName) =
      config.tagFormat.serialize root := by
  change levelWith level (configuredOptions config tagName) >>= dumpText root = _
  rw [levelWith_configuredOptions]
  rfl

theorem jsonFormat_serializeWith_configuredOptions (config : Config) (root : Node)
    (pretty : Bool) :
    (jsonFormat pretty).serializeWith root (configuredOptions config jsonName) =
      config.jsonFormat.serialize root := by
  change prettyWith pretty (configuredOptions config jsonName) >>=
    (fun used => (jsonFormat used).serialize root) = _
  rw [prettyWith_configuredOptions]
  rfl

/-- Three ways from a source text to its dump end alike: with the same text, with
a source that is not read, or with a dump that is too deep. -/
inductive EndAlike (direct : Except FormatError String) (viewed : Except ViewError String)
    (registered : Except FormatError String) : Prop
  | text (text : String) (hdirect : direct = .ok text) (hviewed : viewed = .ok text)
      (hregistered : registered = .ok text)
  | unreadable (error : Interchange.ReadError) (hdirect : direct = .error (.unreadable error))
      (hviewed : viewed = .error (.unreadable (.unreadable error)))
      (hregistered : registered = .error (.unreadable error))
  | tooDeep (hdirect : direct = .error .tooDeep) (hviewed : viewed = .error (.dump .tooDeep))
      (hregistered : registered = .error .tooDeep)

/-- A format that is made with a setting of the configuration and one that gets it
as an option, whatever it was made with, have the same outcome.  So have the dump
of a source text at the configured level, its view with the configured options and
its way through the registry with these options. -/
theorem configured_outputs_agree (config : Config) :
    (∀ root level, (tagFormat level).serializeWith root (configuredOptions config tagName) =
      config.tagFormat.serialize root) ∧
    (∀ root pretty, (jsonFormat pretty).serializeWith root (configuredOptions config jsonName) =
      config.jsonFormat.serialize root) ∧
    ∀ source, EndAlike (jsonToTag source config.initialLevel.toNat)
      (viewText source tagView (configuredOptions config tagName))
      (do
        let root ← Registry.standard.parse source jsonName
        Registry.standard.serializeWith root tagName (configuredOptions config tagName)) := by
  refine ⟨tagFormat_serializeWith_configuredOptions config,
    jsonFormat_serializeWith_configuredOptions config, fun source => ?_⟩
  have hparse : Registry.standard.parse source jsonName = parseJson source := rfl
  rw [hparse, jsonToTag, viewText]
  cases hroot : parseJson source with
  | error error =>
      obtain ⟨cause, rfl⟩ := exists_unreadable_of_parseJson hroot
      exact .unreadable cause rfl rfl rfl
  | ok root =>
      -- the registry and the view make the tag format with the level zero
      have hoption : (tagFormat 0).serializeWith root (configuredOptions config tagName) =
          dumpText root config.initialLevel.toNat :=
        tagFormat_serializeWith_configuredOptions config root 0
      have hregistered : Registry.standard.serializeWith root tagName
          (configuredOptions config tagName) = dumpText root config.initialLevel.toNat := hoption
      simp only [bind, Except.bind, Except.mapError, if_true, hoption, hregistered]
      cases hdump : Tag.dump? root config.initialLevel.toNat with
      | some text =>
          have htext : dumpText root config.initialLevel.toNat = .ok text := by
            rw [dumpText, hdump]
          exact .text text htext (by rw [htext]) htext
      | none =>
          have hdeep : dumpText root config.initialLevel.toNat = .error .tooDeep := by
            rw [dumpText, hdump]
          exact .tooDeep hdeep (by rw [hdeep]) hdeep

end CommandLine
end SyntaxDump

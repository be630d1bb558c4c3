import Mathlib
import SyntaxDump.CommandLine.Program
import SyntaxDump.Proofs.CommandLine.Extras
import SyntaxDump.Proofs.CommandLine.FileTree
import SyntaxDump.Proofs.CommandLine.Options
import SyntaxDump.Proofs.Interchange.RoundTrip
import SyntaxDump.Proofs.Outcome
import SyntaxDump.Proofs.Tag.Forest
import SyntaxDump.Proofs.Tag.Line

/-!
# Commands

A conversion sends its parameters through the configuration, looks both formats
up by name and ends the result with a line break.  A view does none of that.
Both are described here by one relation between the source text and the result,
so they agree, and a command that does not reach a result leaves nothing behind
but its messages.
-/

namespace SyntaxDump

/-! ## The formats that are always there -/

section

variable {root : Node} {options : Options} {text : String}

theorem tagFormat_serializeWith_ok_iff {start : Nat} :
    (tagFormat start).serializeWith root options = .ok text ↔
      ∃ level, levelWith start options = .ok level ∧ Tag.dump? root level = some text := by
  apply bind_ok_iff.trans
  apply exists_congr
  intro level
  apply and_congr_right
  intro _
  unfold dumpText
  cases Tag.dump? root level <;> simp

theorem jsonFormat_serializeWith_ok_iff {start : Bool} :
    (jsonFormat start).serializeWith root options = .ok text ↔
      ∃ pretty, prettyWith start options = .ok pretty ∧
        Interchange.write (styleOf pretty) root = text := by
  apply bind_ok_iff.trans
  simp [pure, Except.pure]

namespace Registry

theorem get_standard_json : standard.get jsonName = .ok (jsonFormat false) := rfl

theorem get_standard_tag : standard.get tagName = .ok (tagFormat 0) := rfl

theorem get_standard_ok_iff {name : String} {format : Format} :
    standard.get name = .ok format ↔
      name = tagName ∧ format = tagFormat 0 ∨ name = jsonName ∧ format = jsonFormat false := by
  constructor
  · intro hformat
    unfold get at hformat
    split at hformat
    · rename_i found hfound
      obtain rfl := Except.ok.inj hformat
      have hmem : found ∈ [jsonFormat false, tagFormat 0] := List.mem_of_find?_eq_some hfound
      have hname : found.name = name := by simpa using List.find?_some hfound
      rcases List.mem_pair.mp hmem with rfl | rfl
      · exact .inr ⟨hname.symm, rfl⟩
      · exact .inl ⟨hname.symm, rfl⟩
    · cases hformat
  · rintro (⟨rfl, rfl⟩ | ⟨rfl, rfl⟩)
    · exact get_standard_tag
    · exact get_standard_json

/-- Only JSON is read. -/
theorem parse_standard_ok_iff {source name : String} :
    standard.parse source name = .ok root ↔ name = jsonName ∧ parseJson source = .ok root := by
  rw [parse, bind_ok_iff]
  constructor
  · rintro ⟨format, hformat, hparse⟩
    rcases get_standard_ok_iff.mp hformat with ⟨rfl, rfl⟩ | ⟨rfl, rfl⟩
    · cases hparse
    · exact ⟨rfl, hparse⟩
  · rintro ⟨rfl, hroot⟩
    exact ⟨_, get_standard_json, hroot⟩

theorem serializeWith_standard_ok_iff {name : String} :
    standard.serializeWith root name options = .ok text ↔
      (name = tagName ∧ ∃ level, levelWith 0 options = .ok level ∧
        Tag.dump? root level = some text) ∨
      (name = jsonName ∧ ∃ pretty, prettyWith false options = .ok pretty ∧
        Interchange.write (styleOf pretty) root = text) := by
  rw [serializeWith, bind_ok_iff, ← tagFormat_serializeWith_ok_iff,
    ← jsonFormat_serializeWith_ok_iff]
  constructor
  · rintro ⟨format, hformat, htext⟩
    rcases get_standard_ok_iff.mp hformat with ⟨rfl, rfl⟩ | ⟨rfl, rfl⟩
    · exact .inl ⟨rfl, htext⟩
    · exact .inr ⟨rfl, htext⟩
  · rintro (⟨rfl, htext⟩ | ⟨rfl, htext⟩)
    · exact ⟨_, get_standard_tag, htext⟩
    · exact ⟨_, get_standard_json, htext⟩

end Registry

end

namespace CommandLine

/-! ## The end of a result -/

theorem endLine_dump {root : Node} {level : Nat} {text : String}
    (hdump : Tag.dump? root level = some text) : endLine text = text := by
  rw [Tag.dump?_eq_some hdump, endLine, Tag.getLast?_linesText]
  split
  · rfl
  · rename_i c hc
    split at hc
    · cases hc
    · rw [if_pos (Option.some.inj hc).symm]

theorem endLine_write (style : Json.Style) (root : Node) :
    endLine (Interchange.write style root) = Interchange.write style root ++ "\n" := by
  rw [endLine, Interchange.getLast?_write]
  rfl

/-! ## What a command makes of a source text -/

/-- The result of converting a source text: the dump of its tree at the level
that the parameters and the configuration give, or its document and a line
break. -/
inductive Conversion (config : Config) (extras : Options) (source : String) :
    (origin target text : String) → Prop
  | tag {root : Node} {level : Nat} {text : String} (hroot : parseJson source = .ok root)
      (hlevel : GivesLevel config extras level) (htext : Tag.dump? root level = some text) :
      Conversion config extras source jsonName tagName text
  | json {root : Node} {pretty : Bool} (hroot : parseJson source = .ok root)
      (hpretty : GivesPretty config extras pretty) :
      Conversion config extras source jsonName jsonName
        (Interchange.write (styleOf pretty) root ++ "\n")

section

variable {config : Config} {extras : Options} {origin target source text : String}

theorem Conversion.of_tag (hconversion : Conversion config extras source origin target text)
    (htarget : target = tagName) :
    ∃ root level, parseJson source = .ok root ∧ GivesLevel config extras level ∧
      Tag.dump? root level = some text := by
  cases hconversion with
  | tag hroot hlevel htext => exact ⟨_, _, hroot, hlevel, htext⟩
  | json => exact absurd htarget (by decide)

theorem Conversion.of_json (hconversion : Conversion config extras source origin target text)
    (htarget : target = jsonName) :
    ∃ root pretty, parseJson source = .ok root ∧ GivesPretty config extras pretty ∧
      Interchange.write (styleOf pretty) root ++ "\n" = text := by
  cases hconversion with
  | tag => exact absurd htarget (by decide)
  | json hroot hpretty => exact ⟨_, _, hroot, hpretty, rfl⟩

/-- All steps of a conversion succeed. -/
structure Converts (config : Config) (extras : Options) (source origin target text : String) :
    Prop where
  overridden : (override config extras).error = none
  permitted : permit extras origin target = .ok ()
  made : convertText (override config extras).config (override config extras).extras origin target
    source = .ok text

/-- All steps of a view succeed. -/
structure Shows (config : Config) (extras : Options) (source view text : String) : Prop where
  overridden : (override config extras).error = none
  shown : inspectText (override config extras).config extras view source = .ok text

theorem permit_ok_iff {format : Format} (hformat : Registry.standard.get target = .ok format) :
    permit extras jsonName target = .ok () ↔ checkTargets extras target = .ok () := by
  cases hcheck : checkTargets extras target <;>
    simp [permit, hcheck, hformat, Registry.get_standard_json, bind, Except.bind, Except.mapError,
      pure, Except.pure]

theorem convertText_ok_iff :
    convertText config extras origin target source = .ok text ↔
      origin = jsonName ∧ ∃ root, parseJson source = .ok root ∧ ∃ result,
        Registry.standard.serializeWith root target (targetOptions config extras target) =
          .ok result ∧ endLine result = text := by
  simp [convertText, bind_ok_iff, mapError_ok_iff, Registry.parse_standard_ok_iff, and_assoc, pure,
    Except.pure]

theorem converts_iff (hextras : extras.keys.Nodup) :
    Converts config extras source origin target text ↔
      Conversion config extras source origin target text := by
  constructor
  · rintro ⟨hoverridden, hpermitted, hmade⟩
    obtain ⟨rfl, root, hroot, result, hresult, rfl⟩ := convertText_ok_iff.mp hmade
    rcases Registry.serializeWith_standard_ok_iff.mp hresult with
      ⟨rfl, level, hlevel, hdump⟩ | ⟨rfl, pretty, hpretty, rfl⟩
    · rw [endLine_dump hdump]
      have hreaches : Reaches tagName (levelWith 0) config extras level :=
        ⟨hoverridden, (permit_ok_iff Registry.get_standard_tag).mp hpermitted, hlevel⟩
      exact .tag hroot ((settingOption_level.reaches_iff hextras).mp hreaches) hdump
    · rw [endLine_write]
      have hreaches : Reaches jsonName (prettyWith false) config extras pretty :=
        ⟨hoverridden, (permit_ok_iff Registry.get_standard_json).mp hpermitted, hpretty⟩
      exact .json hroot ((settingOption_pretty.reaches_iff hextras).mp hreaches)
  · intro hconversion
    cases hconversion with
    | @tag root level _ hroot hlevel hdump =>
        have hreaches := (settingOption_level.reaches_iff hextras).mpr hlevel
        have hresult := Registry.serializeWith_standard_ok_iff.mpr
          (.inl ⟨rfl, level, hreaches.taken, hdump⟩)
        exact ⟨hreaches.overridden,
          (permit_ok_iff Registry.get_standard_tag).mpr hreaches.checked,
          convertText_ok_iff.mpr ⟨rfl, root, hroot, _, hresult, endLine_dump hdump⟩⟩
    | @json root pretty hroot hpretty =>
        have hreaches := (settingOption_pretty.reaches_iff hextras).mpr hpretty
        have hresult := Registry.serializeWith_standard_ok_iff.mpr
          (.inr ⟨rfl, pretty, hreaches.taken, Eq.refl (Interchange.write (styleOf pretty) root)⟩)
        exact ⟨hreaches.overridden,
          (permit_ok_iff Registry.get_standard_json).mpr hreaches.checked,
          convertText_ok_iff.mpr ⟨rfl, root, hroot, _, hresult, endLine_write _ root⟩⟩

theorem inspectText_tag_ok_iff :
    inspectText config extras tagView source = .ok text ↔
      ∃ root, parseJson source = .ok root ∧ ∃ level,
        levelWith 0 (viewParameters config extras tagView) = .ok level ∧
          Tag.dump? root level = some text := by
  simp only [inspectText, viewText, mapError_ok_iff, bind_ok_iff, if_pos,
    tagFormat_serializeWith_ok_iff]

theorem inspectText_json_ok_iff :
    inspectText config extras jsonView source = .ok text ↔
      ∃ root, parseJson source = .ok root ∧ ∃ pretty,
        prettyWith false (jsonViewOptions (viewParameters config extras jsonView)) = .ok pretty ∧
          Interchange.write (styleOf pretty) root ++ "\n" = text := by
  have hview : jsonView ≠ tagView := by decide
  simp only [inspectText, viewText, mapError_ok_iff, bind_ok_iff, if_neg hview, if_pos,
    jsonFormat_serializeWith_ok_iff]
  apply exists_congr
  intro root
  apply and_congr_right
  intro _
  constructor
  · rintro ⟨_, ⟨pretty, hpretty, rfl⟩, htext⟩
    exact ⟨pretty, hpretty, Except.ok.inj htext⟩
  · rintro ⟨pretty, hpretty, rfl⟩
    exact ⟨_, ⟨pretty, hpretty, rfl⟩, rfl⟩

theorem shows_tag_iff (hextras : extras.keys.Nodup) :
    Shows config extras source tagView text ↔
      Conversion config extras source jsonName tagName text := by
  constructor
  · rintro ⟨hoverridden, hshown⟩
    obtain ⟨root, hroot, level, hlevel, hdump⟩ := inspectText_tag_ok_iff.mp hshown
    exact .tag hroot ((showsAtLevel_iff hextras).mp ⟨hoverridden, hlevel⟩) hdump
  · intro hconversion
    obtain ⟨root, level, hroot, hlevel, hdump⟩ := hconversion.of_tag rfl
    have hshows := (showsAtLevel_iff hextras).mpr hlevel
    exact ⟨hshows.overridden, inspectText_tag_ok_iff.mpr ⟨root, hroot, level, hshows.taken, hdump⟩⟩

theorem shows_json_iff (hextras : extras.keys.Nodup) :
    Shows config extras source jsonView text ↔
      Conversion config (jsonViewOptions extras) source jsonName jsonName text := by
  constructor
  · rintro ⟨hoverridden, hshown⟩
    obtain ⟨root, hroot, pretty, hpretty, rfl⟩ := inspectText_json_ok_iff.mp hshown
    exact .json hroot ((showsPretty_iff hextras).mp ⟨hoverridden, hpretty⟩)
  · intro hconversion
    obtain ⟨root, pretty, hroot, hpretty, htext⟩ := hconversion.of_json rfl
    have hshows := (showsPretty_iff hextras).mpr hpretty
    exact ⟨hshows.overridden,
      inspectText_json_ok_iff.mpr ⟨root, hroot, pretty, hshows.taken, htext⟩⟩

end

/-! ## Running a command -/

section

variable {m : Type → Type} [Monad m]

/-- Run a command once the configuration is loaded. -/
def runConfigured (host : Host m) (verbosity : Verbosity) (config : Config) (extras : Options)
    (command : Option Command) : m Report :=
  match (override config extras).error with
  | some error => return .ofError (.option error) ""
  | none =>
      runCommand host verbosity (override config extras).config extras
        (override config extras).extras command

theorem run_of_readArguments (host : Host m) {arguments : List String} {invocation : Invocation}
    (hread : readArguments (splitExtras arguments).arguments = .ok invocation)
    (hlist : invocation.listFormats = false) :
    run host arguments = (do
      match ← loadConfig host invocation.configPath with
      | .error error => return .failed ("Failed to load configuration: " ++ error.message) ""
      | .ok config =>
          runConfigured host (Verbosity.ofCounts invocation.more invocation.less) config
            (splitExtras arguments).extras invocation.command) := by
  simp only [run, hread, hlist]
  rfl

end

namespace Report

theorem exit_ofError (error : CommandError) (log : String) : (ofError error log).exit ≠ 0 := by
  unfold ofError
  split
  · exact (by decide : (101 : UInt32) ≠ 0)
  · exact (by decide : (1 : UInt32) ≠ 0)

theorem stdout_ofError (error : CommandError) (log : String) : (ofError error log).stdout = "" := by
  unfold ofError
  split <;> rfl

end Report

section

variable {config : Config} {extras : Options} {tree : FileTree} {verbosity : Verbosity}
  {input origin target view source text : String} {output : Option String}

theorem run_read_bind {α : Type} (path : String)
    (next : Except FileError String → StateM FileTree α) (tree : FileTree) :
    (memoryHost.read path >>= next).run tree = (next (tree.read path)).run tree := rfl

theorem runConvert_of_error (given : Options) {error : CommandError}
    (herror : permit given origin target = .error error) :
    (runConvert memoryHost verbosity config given extras input (some origin) target output).run
        tree = (.ofError error "", tree) := by
  have hchecks : (do
      let source ← sourceFormat input (some origin)
      permit given source target
      return source : Except CommandError String) = .error error := by
    simp [sourceFormat, herror, bind, Except.bind]
  rw [runConvert, hchecks]
  rfl

theorem runConvert_of_ok (given : Options) (hpermitted : permit given origin target = .ok ())
    (hsource : tree.read input = .ok source) :
    (runConvert memoryHost verbosity config given extras input (some origin) target output).run
        tree =
      match convertText config extras origin target source with
      | .error error =>
          (.ofError error (verbosity.logText (convertLog config extras origin target source)), tree)
      | .ok result =>
          (deliver memoryHost verbosity target output result
            (verbosity.logText (convertLog config extras origin target source))).run tree := by
  have hchecks : (do
      let source ← sourceFormat input (some origin)
      permit given source target
      return source : Except CommandError String) = .ok origin := by
    simp [sourceFormat, hpermitted, bind, Except.bind, pure, Except.pure]
  rw [runConvert, hchecks]
  dsimp only
  rw [run_read_bind, hsource]
  cases hmade : convertText config extras origin target source with
  | error error =>
      simp only [hmade]
      rfl
  | ok result => simp only [hmade]

theorem runInspect_of_ok (hsource : tree.read input = .ok source) :
    (runInspect memoryHost verbosity config extras input view).run tree =
      match inspectText config extras view source with
      | .error error =>
          (.ofError error (verbosity.logText (inspectLog config extras view source)), tree)
      | .ok result =>
          (.done result (verbosity.logText (inspectLog config extras view source)), tree) := by
  rw [runInspect, run_read_bind, hsource]
  cases hshown : inspectText config extras view source with
  | error error =>
      simp only [hshown]
      rfl
  | ok result =>
      simp only [hshown]
      rfl

/-- The command has printed nothing but messages, and all files are as they
were. -/
structure Fails (tree : FileTree) (outcome : Report × FileTree) : Prop where
  exit : outcome.1.exit ≠ 0
  stdout : outcome.1.stdout = ""
  files : outcome.2 = tree

theorem fails_ofError (tree : FileTree) (error : CommandError) (log : String) :
    Fails tree (.ofError error log, tree) :=
  ⟨Report.exit_ofError error log, Report.stdout_ofError error log, rfl⟩

theorem fails_of_override {error : OptionError}
    (herror : (override config extras).error = some error) (command : Option Command) :
    Fails tree ((runConfigured memoryHost verbosity config extras command).run tree) := by
  rw [runConfigured, herror]
  exact fails_ofError tree (.option error) ""

theorem run_convert (hconverts : Converts config extras source origin target text)
    (hsource : tree.read input = .ok source) :
    ∃ log, (runConfigured memoryHost verbosity config extras
        (some (.convert input (some origin) target output))).run tree =
      (deliver memoryHost verbosity target output text log).run tree := by
  obtain ⟨hoverridden, hpermitted, hmade⟩ := hconverts
  rw [runConfigured, hoverridden]
  dsimp only
  rw [runCommand, runConvert_of_ok extras hpermitted hsource, hmade]
  exact ⟨_, rfl⟩

theorem fails_convert (hnone : ∀ text, ¬ Converts config extras source origin target text)
    (hsource : tree.read input = .ok source) :
    Fails tree ((runConfigured memoryHost verbosity config extras
      (some (.convert input (some origin) target output))).run tree) := by
  cases hoverridden : (override config extras).error with
  | some error => exact fails_of_override hoverridden _
  | none =>
      rw [runConfigured, hoverridden]
      dsimp only
      rw [runCommand]
      cases hpermitted : permit extras origin target with
      | error error =>
          rw [runConvert_of_error extras hpermitted]
          exact fails_ofError tree error ""
      | ok =>
          rw [runConvert_of_ok extras hpermitted hsource]
          cases hmade : convertText (override config extras).config
              (override config extras).extras origin target source with
          | error error => exact fails_ofError tree error _
          | ok text => exact absurd ⟨hoverridden, hpermitted, hmade⟩ (hnone text)

theorem run_inspect (hshows : Shows config extras source view text)
    (hsource : tree.read input = .ok source) :
    ∃ log, (runConfigured memoryHost verbosity config extras
      (some (.inspect input view))).run tree = (.done text log, tree) := by
  obtain ⟨hoverridden, hshown⟩ := hshows
  rw [runConfigured, hoverridden]
  dsimp only
  rw [runCommand, runInspect_of_ok hsource, hshown]
  exact ⟨_, rfl⟩

theorem fails_inspect (hnone : ∀ text, ¬ Shows config extras source view text)
    (hsource : tree.read input = .ok source) :
    Fails tree ((runConfigured memoryHost verbosity config extras
      (some (.inspect input view))).run tree) := by
  cases hoverridden : (override config extras).error with
  | some error => exact fails_of_override hoverridden _
  | none =>
      rw [runConfigured, hoverridden]
      dsimp only
      rw [runCommand, runInspect_of_ok hsource]
      cases hshown : inspectText (override config extras).config extras view source with
      | error error => exact fails_ofError tree error _
      | ok text => exact absurd ⟨hoverridden, hshown⟩ (hnone text)

theorem Conversion.unique {text' : String} (hextras : extras.keys.Nodup)
    (htext : Conversion config extras source origin target text)
    (htext' : Conversion config extras source origin target text') : text = text' := by
  have hmade := ((converts_iff hextras).mpr htext).made
  have hmade' := ((converts_iff hextras).mpr htext').made
  exact Except.ok.inj (hmade.symm.trans hmade')

end

/-- Two commands fail, or they succeed and print the same. -/
structure Agree (first second : Report) : Prop where
  succeeds : first.exit = 0 ↔ second.exit = 0
  printed : first.exit = 0 → first.stdout = second.stdout
  silent : first.exit ≠ 0 → first.stdout = "" ∧ second.stdout = ""

/-- A command prints the text that has the property, or fails if there is
none. -/
structure Prints (p : String → Prop) (tree : FileTree) (outcome : Report × FileTree) : Prop where
  done : ∀ text, p text → ∃ log, outcome = (.done text log, tree)
  failed : (∀ text, ¬ p text) → Fails tree outcome

theorem Prints.agree {p q : String → Prop} {tree : FileTree} {first second : Report × FileTree}
    (hfirst : Prints p tree first) (hsecond : Prints q tree second)
    (hiff : ∀ text, p text ↔ q text) : Agree first.1 second.1 := by
  by_cases hresult : ∃ text, p text
  · obtain ⟨text, htext⟩ := hresult
    obtain ⟨log, rfl⟩ := hfirst.done text htext
    obtain ⟨log', rfl⟩ := hsecond.done text ((hiff text).mp htext)
    exact ⟨Iff.rfl, fun _ => rfl, fun hfailed => absurd rfl hfailed⟩
  · have hnone : ∀ text, ¬ p text := not_exists.mp hresult
    have hfails := hfirst.failed hnone
    have hfails' := hsecond.failed fun text htext => hnone text ((hiff text).mpr htext)
    exact ⟨iff_of_false hfails.exit hfails'.exit, fun hexit => absurd hexit hfails.exit,
      fun _ => ⟨hfails.stdout, hfails'.stdout⟩⟩

section

variable (verbosity : Verbosity) (config : Config) {extras : Options} {tree : FileTree}
  {input source : String}

theorem prints_inspect (view : String) (hsource : tree.read input = .ok source) :
    Prints (Shows config extras source view) tree
      ((runConfigured memoryHost verbosity config extras (some (.inspect input view))).run tree) :=
  ⟨fun _ hshows => run_inspect hshows hsource, fun hnone => fails_inspect hnone hsource⟩

theorem prints_convert (hextras : extras.keys.Nodup) (target : String)
    (hsource : tree.read input = .ok source) :
    Prints (Conversion config extras source jsonName target) tree
      ((runConfigured memoryHost verbosity config extras
        (some (.convert input (some jsonName) target none))).run tree) := by
  constructor
  · intro text hconversion
    exact run_convert ((converts_iff hextras).mpr hconversion) hsource
  · intro hnone
    apply fails_convert _ hsource
    intro text hconverts
    exact hnone text ((converts_iff hextras).mp hconverts)

end

/-- A view agrees with the conversion of its source, which for JSON is asked to
be pretty if the parameters do not say. -/
theorem inspect_agrees_with_convert (verbosity : Verbosity) (config : Config) (extras : Options)
    (hextras : extras.keys.Nodup) (tree : FileTree) (input source : String)
    (hsource : tree.read input = .ok source) :
    let inspected (view : String) (extras : Options) : Report :=
      ((runConfigured memoryHost verbosity config extras (some (.inspect input view))).run tree).1
    let converted (target : String) (extras : Options) : Report :=
      ((runConfigured memoryHost verbosity config extras
        (some (.convert input (some jsonName) target none))).run tree).1
    Agree (inspected tagView extras) (converted tagName extras) ∧
    Agree (inspected jsonView extras)
      (converted jsonName
        (if extras.has prettyOption then extras else extras ++ [(prettyOption, "true")])) := by
  intro inspected converted
  constructor
  · exact (prints_inspect verbosity config tagView hsource).agree
      (prints_convert verbosity config hextras tagName hsource) fun _ => shows_tag_iff hextras
  · exact (prints_inspect verbosity config jsonView hsource).agree
      (prints_convert verbosity config (nodup_keys_jsonViewOptions hextras) jsonName hsource)
      fun _ => shows_json_iff hextras

theorem inspect_agrees_with_convert_pretty :
    let source := "\x7b\"kind\":\"integer\",\"value\":7\x7d"
    let tree : FileTree := ⟨["work"], [(["work", "seven"], source)]⟩
    let inspected : Report := ((runConfigured memoryHost ⟨2⟩ ⟨1, false⟩ []
      (some (.inspect "seven" "ast-json"))).run tree).1
    let converted : Report := ((runConfigured memoryHost ⟨2⟩ ⟨1, false⟩ [("pretty", "true")]
      (some (.convert "seven" (some "json") "json" none))).run tree).1
    inspected.stdout = "\x7b\n  \"kind\": \"integer\",\n  \"value\": 7\n\x7d\n" ∧
      inspected.stdout = converted.stdout := by
  intro source tree inspected converted
  have hsource : tree.read "seven" = .ok source := rfl
  have hroot : parseJson source = .ok (.integer 7) := by cbv
  have hshows : Shows ⟨1, false⟩ [] source jsonView _ :=
    (shows_json_iff (by decide)).mpr (.json hroot (.only rfl))
  obtain ⟨log, hrun⟩ := (prints_inspect ⟨2⟩ ⟨1, false⟩ jsonView hsource).done _ hshows
  have hinspected : inspected = .done _ log := congrArg Prod.fst hrun
  have hagree : Agree inspected converted :=
    (inspect_agrees_with_convert ⟨2⟩ ⟨1, false⟩ [] (by decide) tree "seven" source hsource).2
  constructor
  · rw [hinspected]
    cbv
  · apply hagree.printed
    rw [hinspected]
    rfl

end CommandLine
end SyntaxDump

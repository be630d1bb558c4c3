import Mathlib.Tactic
import SyntaxDump.CommandLine.Convert
import SyntaxDump.Proofs.Decimal.Digits

/-!
# Options on their way to a format

An extra parameter that overrides a setting leaves the parameters, becomes part
of the configuration and comes back as an option of the target.  On every such
way a command takes no parameter but the one of its target, and that one has
the value it would have without the detour.
-/

namespace SyntaxDump

namespace Options

def keys (options : Options) : List String := options.map Prod.fst

theorem has_iff {options : Options} {key : String} :
    options.has key = true ↔ key ∈ options.keys := by
  simp [has, keys]

theorem mem_keys_assign {options : Options} {key other value : String}
    (hother : other = key ∨ other ∈ options.keys) : other ∈ (options.assign key value).keys := by
  induction options with
  | nil => simpa [assign, keys] using hother
  | cons pair options ih =>
      obtain ⟨name, old⟩ := pair
      have hcases : other = key ∨ other = name ∨ other ∈ keys options := by
        simpa [keys] using hother
      by_cases hname : name = key
      · subst hname
        rw [assign, if_pos rfl]
        exact List.mem_cons.mpr (by tauto)
      · rw [assign, if_neg hname]
        apply List.mem_cons.mpr
        rcases hcases with hkey | hhead | htail
        · exact .inr (ih (.inl hkey))
        · exact .inl hhead
        · exact .inr (ih (.inr htail))

theorem mem_keys_assignAll {options more : Options} {key : String}
    (hkey : key ∈ options.keys ∨ key ∈ more.keys) : key ∈ (options.assignAll more).keys := by
  induction more generalizing options with
  | nil => simpa [assignAll, keys] using hkey
  | cons pair more ih =>
      obtain ⟨name, value⟩ := pair
      apply ih
      rcases hkey with hold | hnew
      · exact .inl (mem_keys_assign (.inr hold))
      · rcases List.mem_cons.mp hnew with heq | hmem
        · exact .inl (mem_keys_assign (.inl heq))
        · exact .inr hmem

theorem mem_keys_without {options : Options} {key other : String} (hmem : other ∈ options.keys)
    (hne : other ≠ key) : other ∈ (options.without key).keys := by
  obtain ⟨pair, hpair, rfl⟩ := List.mem_map.mp hmem
  exact List.mem_map.mpr ⟨pair, List.mem_filter.mpr ⟨hpair, by simpa using hne⟩, rfl⟩

theorem eq_nil_or_singleton {options : Options} {key : String} (hnodup : options.keys.Nodup)
    (hkeys : ∀ other ∈ options.keys, other = key) :
    options = [] ∨ ∃ value, options = [(key, value)] := by
  cases options with
  | nil => exact .inl rfl
  | cons pair options =>
      obtain ⟨name, value⟩ := pair
      obtain rfl : name = key := hkeys name (by simp [keys])
      cases options with
      | nil => exact .inr ⟨value, rfl⟩
      | cons second options =>
          have hsecond : second.1 = name := hkeys second.1 (by simp [keys])
          simp [keys, hsecond] at hnodup

/-- Two properties agree that allow one key only and agree on what is then
left. -/
theorem iff_of_keys {options : Options} {key : String} {p q : Options → Prop}
    (hnodup : options.keys.Nodup) (hp : p options → ∀ other ∈ options.keys, other = key)
    (hq : q options → ∀ other ∈ options.keys, other = key) (hnil : p [] ↔ q [])
    (hsingleton : ∀ value, p [(key, value)] ↔ q [(key, value)]) : p options ↔ q options := by
  by_cases hkeys : ∀ other ∈ options.keys, other = key
  · rcases eq_nil_or_singleton hnodup hkeys with rfl | ⟨value, rfl⟩
    · exact hnil
    · exact hsingleton value
  · constructor
    · exact fun hleft => absurd (hp hleft) hkeys
    · exact fun hright => absurd (hq hright) hkeys

end Options

/-! ## The options that a format takes -/

theorem keys_of_levelWith {options : Options} {level result : Nat}
    (hresult : levelWith level options = .ok result) :
    ∀ key ∈ options.keys, key = initialLevelOption := by
  induction options generalizing level with
  | nil => simp [Options.keys]
  | cons pair options ih =>
      obtain ⟨name, value⟩ := pair
      rw [levelWith] at hresult
      split at hresult
      · rename_i hname
        split at hresult
        · intro key hkey
          rcases List.mem_cons.mp hkey with heq | hmem
          · exact heq.trans hname
          · exact ih hresult key hmem
        · cases hresult
      · cases hresult

theorem keys_of_prettyWith {options : Options} {pretty result : Bool}
    (hresult : prettyWith pretty options = .ok result) :
    ∀ key ∈ options.keys, key = prettyOption := by
  induction options generalizing pretty with
  | nil => simp [Options.keys]
  | cons pair options ih =>
      obtain ⟨name, value⟩ := pair
      rw [prettyWith] at hresult
      split at hresult
      · rename_i hname
        cases hvalue : parseBoolOption name value with
        | error error => simp [hvalue, bind, Except.bind] at hresult
        | ok found =>
            simp only [hvalue, bind, Except.bind] at hresult
            intro key hkey
            rcases List.mem_cons.mp hkey with heq | hmem
            · exact heq.trans hname
            · exact ih hresult key hmem
      · cases hresult

/-- A setting is given by nothing but its own option, or left as it was if
there are no options at all. -/
inductive Gives {α : Type} (key : String) (read : String → Option α) (default : α) :
    Options → α → Prop
  | absent : Gives key read default [] default
  | only {value : String} {result : α} (hvalue : read value = some result) :
      Gives key read default [(key, value)] result

section

variable {α : Type} {key value : String} {read : String → Option α} {default result : α}

theorem gives_nil_iff : Gives key read default [] result ↔ default = result := by
  constructor
  · rintro ⟨⟩
    rfl
  · rintro rfl
    exact .absent

theorem gives_singleton_iff :
    Gives key read default [(key, value)] result ↔ read value = some result := by
  constructor
  · rintro (_ | hvalue)
    exact hvalue
  · exact .only

theorem Gives.keys {options : Options} (hgives : Gives key read default options result) :
    ∀ other ∈ options.keys, other = key := by
  cases hgives with
  | absent => simp [Options.keys]
  | only hvalue => simp [Options.keys]

end

namespace CommandLine

/-! ## Overriding the configuration -/

section

variable {config : Config} {extras : Options}

theorem mem_keys_overrideLevel {key : String} (hkey : key ∈ extras.keys)
    (hne : key ≠ initialLevelOption) : key ∈ (overrideLevel config extras).extras.keys := by
  have hwithout := Options.mem_keys_without hkey hne
  unfold overrideLevel
  split
  · exact hkey
  · dsimp only
    split <;> exact hwithout

theorem mem_keys_overridePretty {key : String} (hkey : key ∈ extras.keys)
    (hne : key ≠ prettyOption) : key ∈ (overridePretty config extras).extras.keys := by
  have hwithout := Options.mem_keys_without hkey hne
  unfold overridePretty
  split
  · exact hkey
  · dsimp only
    split <;> exact hwithout

/-- A parameter that overrides no setting is left. -/
theorem mem_keys_override {key : String} (hkey : key ∈ extras.keys)
    (hlevel : key ≠ initialLevelOption) (hpretty : key ≠ prettyOption) :
    key ∈ (override config extras).extras.keys := by
  have hfirst : key ∈ (overrideLevel config extras).extras.keys :=
    mem_keys_overrideLevel hkey hlevel
  unfold override
  dsimp only
  split
  · exact hfirst
  · exact mem_keys_overridePretty hfirst hpretty

theorem override_nil (config : Config) : override config [] = ⟨config, [], none⟩ := rfl

theorem override_level {value : String} {level : Nat}
    (hvalue : Decimal.readWord? value = some level) :
    override config [(initialLevelOption, value)] =
      ⟨{ config with initialLevel := UInt64.ofNat level }, [], none⟩ := by
  have hfirst : overrideLevel config [(initialLevelOption, value)] =
      ⟨{ config with initialLevel := UInt64.ofNat level }, [], none⟩ := by
    simp [overrideLevel, hvalue, Options.without]
  rw [override, hfirst]
  rfl

theorem override_invalidLevel {value : String} (hvalue : Decimal.readWord? value = none) :
    (override config [(initialLevelOption, value)]).error = some (.invalidLevel value) := by
  have hfirst : overrideLevel config [(initialLevelOption, value)] =
      ⟨config, [], some (.invalidLevel value)⟩ := by
    simp [overrideLevel, hvalue, Options.without]
  rw [override, hfirst]

theorem overrideLevel_pretty (value : String) :
    overrideLevel config [(prettyOption, value)] = ⟨config, [(prettyOption, value)], none⟩ := by
  rfl

theorem override_pretty {value : String} {pretty : Bool}
    (hvalue : parseBoolOption prettyOption value = .ok pretty) :
    override config [(prettyOption, value)] = ⟨{ config with pretty }, [], none⟩ := by
  rw [override, overrideLevel_pretty]
  simp [overridePretty, hvalue, Options.without]

theorem override_invalidPretty {value : String} {error : FormatError}
    (hvalue : parseBoolOption prettyOption value = .error error) :
    (override config [(prettyOption, value)]).error = some (.invalid error) := by
  rw [override, overrideLevel_pretty]
  simp [overridePretty, hvalue]

theorem not_mem_keys_of_checkTargets {target option format : String}
    (hcheck : checkTargets extras target = .ok ()) (hoption : (option, format) ∈ optionTargets)
    (htarget : target ≠ format) : option ∉ extras.keys := by
  intro hmem
  unfold checkTargets at hcheck
  split at hcheck
  · cases hcheck
  · rename_i hnone
    have hrefused := List.find?_eq_none.mp hnone (option, format) hoption
    simp [htarget, Options.has_iff.mpr hmem] at hrefused

end

/-! ## The settings that reach a format -/

/-- The level as it is read off the value of its option. -/
abbrev GivesLevel (config : Config) : Options → Nat → Prop :=
  Gives initialLevelOption Decimal.readWord? config.initialLevel.toNat

abbrev GivesPretty (config : Config) : Options → Bool → Prop :=
  Gives prettyOption (fun value => (parseBoolOption prettyOption value).toOption) config.pretty

/-- One option of a format is also a setting of the configuration: the format
takes no other option, and the option means the same before and after it has
gone through the configuration. -/
structure SettingOption {α : Type} (key format : String) (take : Options → Except FormatError α)
    (read : String → Option α) (setting : Config → α) : Prop where
  target : (key, format) ∈ optionTargets
  keys : ∀ {options : Options} {result : α}, take options = .ok result →
    ∀ other ∈ options.keys, other = key
  taken : ∀ {value : String} {result : α},
    take [(key, value)] = .ok result ↔ read value = some result
  configured : ∀ config, take (configuredOptions config format) = .ok (setting config)
  overridden : ∀ {value : String} {result : α}, read value = some result → ∀ config,
    ∃ changed, override config [(key, value)] = ⟨changed, [], none⟩ ∧ setting changed = result
  refused : ∀ {value : String}, read value = none → ∀ config,
    (override config [(key, value)]).error ≠ none

theorem settingOption_level :
    SettingOption initialLevelOption tagName (levelWith 0) Decimal.readWord?
      fun config => config.initialLevel.toNat where
  target := by decide
  keys := keys_of_levelWith
  taken := by
    intro value level
    cases hvalue : Decimal.readWord? value <;> simp [levelWith, hvalue]
  configured := by
    intro config
    have hword := Decimal.readWord?_natText config.initialLevel.toNat_lt
    simp [configuredOptions, levelWith, hword]
  overridden := by
    intro value level hvalue config
    exact ⟨_, override_level hvalue,
      UInt64.toNat_ofNat_of_lt' (Decimal.lt_of_readWord? hvalue)⟩
  refused := by
    intro value hvalue config
    simp [override_invalidLevel hvalue]

theorem parseBoolOption_boolText (pretty : Bool) :
    parseBoolOption prettyOption (if pretty then "true" else "false") = .ok pretty := by
  cases pretty <;> rfl

theorem prettyWith_singleton {start pretty : Bool} {value : String} :
    prettyWith start [(prettyOption, value)] = .ok pretty ↔
      (parseBoolOption prettyOption value).toOption = some pretty := by
  cases hvalue : parseBoolOption prettyOption value <;>
    simp [prettyWith, hvalue, bind, Except.bind, Except.toOption]

theorem settingOption_pretty :
    SettingOption prettyOption jsonName (prettyWith false)
      (fun value => (parseBoolOption prettyOption value).toOption) Config.pretty where
  target := by decide
  keys := keys_of_prettyWith
  taken := prettyWith_singleton
  configured := by
    intro config
    apply prettyWith_singleton.mpr
    rw [parseBoolOption_boolText]
    rfl
  overridden := by
    intro value pretty hvalue config
    cases hparsed : parseBoolOption prettyOption value with
    | error error => simp [hparsed, Except.toOption] at hvalue
    | ok given =>
        obtain rfl : given = pretty := by simpa [hparsed, Except.toOption] using hvalue
        exact ⟨_, override_pretty hparsed, rfl⟩
  refused := by
    intro value hvalue config
    cases hparsed : parseBoolOption prettyOption value with
    | error error => simp [override_invalidPretty hparsed]
    | ok given => simp [hparsed, Except.toOption] at hvalue

section

variable {α : Type} {key format : String} {take : Options → Except FormatError α}
  {read : String → Option α} {setting : Config → α} {config changed : Config} {extras : Options}
  {result : α}

/-- A conversion has its parameters accepted, and the format then takes the
result from them. -/
structure Reaches (format : String) (take : Options → Except FormatError α) (config : Config)
    (extras : Options) (result : α) : Prop where
  overridden : (override config extras).error = none
  checked : checkTargets extras format = .ok ()
  taken : take (targetOptions (override config extras).config (override config extras).extras
    format) = .ok result

theorem option_unique {key' : String} (hkey : (key, format) ∈ optionTargets)
    (hkey' : (key', format) ∈ optionTargets) : key = key' := by
  have hformats : tagName ≠ jsonName := by decide
  simp only [optionTargets, List.mem_cons, Prod.mk.injEq, List.not_mem_nil, or_false] at hkey hkey'
  rcases hkey with ⟨rfl, rfl⟩ | ⟨rfl, rfl⟩ <;> rcases hkey' with ⟨rfl, hformat⟩ | ⟨rfl, hformat⟩
  · rfl
  · exact absurd hformat hformats
  · exact absurd hformat.symm hformats
  · rfl

theorem checkTargets_nil (target : String) : checkTargets [] target = .ok () := by
  simp [checkTargets, optionTargets, Options.has]

theorem checkTargets_singleton (hkey : (key, format) ∈ optionTargets) (value : String) :
    checkTargets [(key, value)] format = .ok () := by
  rcases List.mem_pair.mp hkey with hpair | hpair
  · obtain ⟨rfl, rfl⟩ := Prod.mk.inj hpair
    rfl
  · obtain ⟨rfl, rfl⟩ := Prod.mk.inj hpair
    rfl

namespace SettingOption

variable (hoption : SettingOption key format take read setting)

include hoption

theorem keys_of_reaches (hreaches : Reaches format take config extras result) :
    ∀ other ∈ extras.keys, other = key := by
  intro other hother
  by_contra hne
  -- An option of the other format would have been refused, and any other one
  -- would have been left for the format.
  have hforeign : ∀ format', (other, format') ∉ optionTargets := by
    intro format' htarget
    apply not_mem_keys_of_checkTargets hreaches.checked htarget _ hother
    rintro rfl
    exact hne (option_unique htarget hoption.target)
  have hlevel : other ≠ initialLevelOption := by
    rintro rfl
    exact hforeign tagName (by decide)
  have hpretty : other ≠ prettyOption := by
    rintro rfl
    exact hforeign jsonName (by decide)
  have hleft : other ∈ (override config extras).extras.keys :=
    mem_keys_override hother hlevel hpretty
  exact hne (hoption.keys hreaches.taken other (Options.mem_keys_assignAll (.inr hleft)))

theorem reaches_of_override (hoverride : override config extras = ⟨changed, [], none⟩)
    (hchecked : checkTargets extras format = .ok ()) :
    Reaches format take config extras result ↔ setting changed = result := by
  have htaken : take (targetOptions (override config extras).config
      (override config extras).extras format) = .ok (setting changed) := by
    rw [hoverride]
    exact hoption.configured changed
  constructor
  · intro hreaches
    exact Except.ok.inj (htaken.symm.trans hreaches.taken)
  · rintro rfl
    exact ⟨by rw [hoverride], hchecked, htaken⟩

/-- A conversion takes what its own option gives, although the option goes
through the configuration. -/
theorem reaches_iff (hextras : extras.keys.Nodup) :
    Reaches format take config extras result ↔ Gives key read (setting config) extras result := by
  refine Options.iff_of_keys (p := fun extras => Reaches format take config extras result)
    (q := fun extras => Gives key read (setting config) extras result) hextras
    hoption.keys_of_reaches Gives.keys ?_ ?_
  · rw [gives_nil_iff]
    exact hoption.reaches_of_override (override_nil config) (checkTargets_nil format)
  · intro value
    rw [gives_singleton_iff]
    have hchecked := checkTargets_singleton hoption.target value
    cases hvalue : read value with
    | none =>
        simp only [reduceCtorEq, iff_false]
        intro hreaches
        exact hoption.refused hvalue config hreaches.overridden
    | some given =>
        obtain ⟨changed, hoverride, rfl⟩ := hoption.overridden hvalue config
        rw [hoption.reaches_of_override hoverride hchecked, Option.some.injEq]

end SettingOption

end

/-! ## The settings that reach a view -/

section

variable {config : Config} {extras : Options} {level : Nat} {pretty : Bool}

structure ShowsAtLevel (config : Config) (extras : Options) (level : Nat) : Prop where
  overridden : (override config extras).error = none
  taken : levelWith 0 (viewParameters (override config extras).config extras tagView) = .ok level

structure ShowsPretty (config : Config) (extras : Options) (pretty : Bool) : Prop where
  overridden : (override config extras).error = none
  taken : prettyWith false (jsonViewOptions
    (viewParameters (override config extras).config extras jsonView)) = .ok pretty

theorem mem_keys_jsonViewOptions {key : String} (hkey : key ∈ extras.keys) :
    key ∈ (jsonViewOptions extras).keys := by
  unfold jsonViewOptions
  split
  · exact hkey
  · rw [Options.keys, List.map_append]
    exact List.mem_append_left _ hkey

theorem nodup_keys_jsonViewOptions (hextras : extras.keys.Nodup) :
    (jsonViewOptions extras).keys.Nodup := by
  unfold jsonViewOptions
  split
  · exact hextras
  · rename_i hpretty
    rw [Options.has_iff] at hpretty
    rw [Options.keys, List.map_append]
    exact List.nodup_append'.mpr ⟨hextras, by simp, List.disjoint_singleton.mpr hpretty⟩

theorem ShowsAtLevel.keys (hshows : ShowsAtLevel config extras level) :
    ∀ key ∈ extras.keys, key = initialLevelOption := by
  intro key hkey
  exact keys_of_levelWith hshows.taken key (Options.mem_keys_assignAll (.inr hkey))

theorem ShowsPretty.keys (hshows : ShowsPretty config extras pretty) :
    ∀ key ∈ extras.keys, key = prettyOption := by
  intro key hkey
  have hparameter : key ∈ (viewParameters (override config extras).config extras jsonView).keys :=
    Options.mem_keys_assignAll (.inr hkey)
  exact keys_of_prettyWith hshows.taken key (mem_keys_jsonViewOptions hparameter)

/-- A view of a dump has the level that a conversion has. -/
theorem showsAtLevel_iff (hextras : extras.keys.Nodup) :
    ShowsAtLevel config extras level ↔ GivesLevel config extras level := by
  refine Options.iff_of_keys (p := fun extras => ShowsAtLevel config extras level)
    (q := fun extras => GivesLevel config extras level) hextras ShowsAtLevel.keys Gives.keys ?_ ?_
  · apply Iff.trans _ gives_nil_iff.symm
    have htaken := settingOption_level.configured config
    constructor
    · intro hshows
      exact Except.ok.inj (htaken.symm.trans hshows.taken)
    · rintro rfl
      exact ⟨rfl, htaken⟩
  · intro value
    apply Iff.trans _ gives_singleton_iff.symm
    constructor
    · intro hshows
      exact settingOption_level.taken.mp hshows.taken
    · intro hvalue
      exact ⟨by rw [override_level hvalue], settingOption_level.taken.mpr hvalue⟩

/-- A view of JSON has the form that a conversion has with the default of the
view; the configuration does not count. -/
theorem showsPretty_iff (hextras : extras.keys.Nodup) :
    ShowsPretty config extras pretty ↔ GivesPretty config (jsonViewOptions extras) pretty := by
  refine Options.iff_of_keys (p := fun extras => ShowsPretty config extras pretty)
    (q := fun extras => GivesPretty config (jsonViewOptions extras) pretty) hextras
    ShowsPretty.keys ?_ ?_ ?_
  · intro hgives key hkey
    exact hgives.keys key (mem_keys_jsonViewOptions hkey)
  · apply Iff.trans _ gives_singleton_iff.symm
    constructor
    · intro hshows
      exact prettyWith_singleton.mp hshows.taken
    · intro hvalue
      exact ⟨rfl, prettyWith_singleton.mpr hvalue⟩
  · intro value
    apply Iff.trans _ gives_singleton_iff.symm
    constructor
    · intro hshows
      exact prettyWith_singleton.mp hshows.taken
    · intro hvalue
      obtain ⟨changed, hoverride, -⟩ := settingOption_pretty.overridden hvalue config
      exact ⟨by rw [hoverride], prettyWith_singleton.mpr hvalue⟩

end

end CommandLine
end SyntaxDump

import Mathlib.Tactic
import SyntaxDump.Proofs.CommandLine.Options
import SyntaxDump.Proofs.Outcome

/-!
# Options in any order

A format goes through its options one after the other and stops at the first one
that it does not take, so the error of a run may depend on the order of the
options.  Whether there is one does not: a format takes one option at most, so
the options of a run that succeeds have one order only.  And where one option is
wrong, it is the first wrong one in every order.
-/

namespace SyntaxDump

/-! ## Loops that take one option -/

/-- What a format that takes one option has against an entry. -/
def complaint? {α : Type} (key format : String) (read : String → Option α)
    (entry : String × String) : Option FormatError :=
  if entry.1 = key then
    match read entry.2 with
    | some _ => none
    | none => some (.invalidOption key entry.2)
  else some (.notSupported format (.option entry.1))

/-- A loop over options that keeps the last value of one of them and stops at
everything else. -/
structure TakesOption {α : Type} (key format : String) (read : String → Option α)
    (take : α → Options → Except FormatError α) : Prop where
  nil : ∀ start, take start [] = .ok start
  taken : ∀ {start value result rest}, read value = some result →
    take start ((key, value) :: rest) = take result rest
  refused : ∀ {start entry error rest}, complaint? key format read entry = some error →
    take start (entry :: rest) = .error error

theorem takesOption_levelWith :
    TakesOption initialLevelOption tagName Decimal.readWord? levelWith where
  nil _ := rfl
  taken hvalue := by simp [levelWith, hvalue]
  refused := by
    intro level entry error rest hcomplaint
    obtain ⟨name, value⟩ := entry
    rw [complaint?] at hcomplaint
    rw [levelWith]
    split_ifs at hcomplaint with hname
    · cases hvalue : Decimal.readWord? value with
      | some read => simp [hvalue] at hcomplaint
      | none =>
          obtain rfl : .invalidOption initialLevelOption value = error := by
            simpa [hvalue] using hcomplaint
          simp [show name = initialLevelOption from hname]
    · obtain rfl := Option.some.inj hcomplaint
      exact if_neg hname

/-- The value of an option that is on or off. -/
def readPretty? (value : String) : Option Bool := (parseBoolOption prettyOption value).toOption

theorem parseBoolOption_eq_error {key value : String} {error : FormatError}
    (herror : parseBoolOption key value = .error error) : error = .invalidOption key value := by
  rw [parseBoolOption] at herror
  split_ifs at herror
  exact (Except.error.inj herror).symm

theorem takesOption_prettyWith :
    TakesOption prettyOption jsonName readPretty? prettyWith where
  nil _ := rfl
  taken := by
    intro start value result rest hvalue
    cases hparsed : parseBoolOption prettyOption value with
    | error error => simp [readPretty?, hparsed, Except.toOption] at hvalue
    | ok given =>
        obtain rfl : given = result := by simpa [readPretty?, hparsed, Except.toOption] using hvalue
        simp [prettyWith, hparsed, bind, Except.bind]
  refused := by
    intro pretty entry error rest hcomplaint
    obtain ⟨name, value⟩ := entry
    rw [complaint?] at hcomplaint
    rw [prettyWith]
    split_ifs at hcomplaint with hname
    · obtain rfl : name = prettyOption := hname
      cases hparsed : parseBoolOption prettyOption value with
      | ok given => simp [readPretty?, hparsed, Except.toOption] at hcomplaint
      | error reason =>
          obtain rfl : .invalidOption prettyOption value = error := by
            simpa [readPretty?, hparsed, Except.toOption] using hcomplaint
          simp [bind, Except.bind, parseBoolOption_eq_error hparsed]
    · obtain rfl := Option.some.inj hcomplaint
      exact if_neg hname

theorem exists_read_of_complaint?_eq_none {α : Type} {key format : String}
    {read : String → Option α} {entry : String × String}
    (hnone : complaint? key format read entry = none) :
    entry.1 = key ∧ ∃ result, read entry.2 = some result := by
  rw [complaint?] at hnone
  split_ifs at hnone with hname
  refine ⟨hname, ?_⟩
  cases hvalue : read entry.2 with
  | none => simp [hvalue] at hnone
  | some result => exact ⟨result, rfl⟩

namespace TakesOption

variable {α : Type} {key format : String} {read : String → Option α}
  {take : α → Options → Except FormatError α} {start result : α} {options options' : Options}
  {error : FormatError}

variable (htakes : TakesOption key format read take)

include htakes

/-- The error of a loop is the first complaint. -/
theorem eq_error_iff :
    take start options = .error error ↔
      options.findSome? (complaint? key format read) = some error := by
  induction options generalizing start with
  | nil => simp [htakes.nil]
  | cons entry rest ih =>
      rw [List.findSome?_cons]
      cases hcomplaint : complaint? key format read entry with
      | some reason => simp [htakes.refused hcomplaint]
      | none =>
          obtain ⟨rfl, given, hgiven⟩ := exists_read_of_complaint?_eq_none hcomplaint
          rw [show entry = (entry.1, entry.2) from rfl, htakes.taken hgiven, ih]

theorem keys_of_ok (hresult : take start options = .ok result) :
    ∀ other ∈ options.keys, other = key := by
  have hnone : options.findSome? (complaint? key format read) = none := by
    rw [Option.eq_none_iff_forall_ne_some]
    intro error hsome
    rw [htakes.eq_error_iff.mpr hsome] at hresult
    cases hresult
  intro other hother
  obtain ⟨entry, hentry, rfl⟩ := List.mem_map.mp hother
  exact (exists_read_of_complaint?_eq_none (List.findSome?_eq_none_iff.mp hnone entry hentry)).1

/-- A map is taken that has no other key, and a value that is read. -/
theorem eq_ok_iff (hnodup : options.keys.Nodup) :
    take start options = .ok result ↔ Gives key read start options result := by
  refine Options.iff_of_keys (p := fun options => take start options = .ok result)
    (q := fun options => Gives key read start options result) hnodup
    htakes.keys_of_ok Gives.keys ?nil ?singleton
  case nil => rw [htakes.nil, gives_nil_iff, Except.ok.injEq]
  case singleton =>
    intro value
    rw [gives_singleton_iff]
    cases hvalue : read value with
    | some given => rw [htakes.taken hvalue, htakes.nil, Except.ok.injEq, Option.some.injEq]
    | none =>
        have hcomplaint : complaint? key format read (key, value) =
            some (.invalidOption key value) := by
          simp [complaint?, hvalue]
        simp [htakes.refused hcomplaint]

theorem eq_ok_of_perm (hnodup : options.keys.Nodup) (hperm : options.Perm options')
    (hresult : take start options = .ok result) : take start options' = .ok result := by
  cases (htakes.eq_ok_iff hnodup).mp hresult with
  | absent => rwa [List.nil_perm.mp hperm]
  | only hvalue => rwa [List.perm_singleton.mp hperm.symm]

theorem eq_ok_iff_of_perm (hnodup : options.keys.Nodup) (hperm : options.Perm options') :
    take start options = .ok result ↔ take start options' = .ok result := by
  have hnodup' : options'.keys.Nodup := (hperm.map Prod.fst).nodup_iff.mp hnodup
  exact ⟨htakes.eq_ok_of_perm hnodup hperm, htakes.eq_ok_of_perm hnodup' hperm.symm⟩

/-- The only complaint is the error. -/
theorem eq_error_of_only {entry : String × String} (hentry : entry ∈ options)
    (herror : complaint? key format read entry = some error)
    (honly : ∀ other ∈ options, other ≠ entry → complaint? key format read other = none) :
    take start options = .error error := by
  rw [htakes.eq_error_iff]
  cases hfirst : options.findSome? (complaint? key format read) with
  | none =>
      rw [List.findSome?_eq_none_iff.mp hfirst entry hentry] at herror
      cases herror
  | some reason =>
      obtain ⟨other, hother, hreason⟩ := List.exists_of_findSome?_eq_some hfirst
      by_cases heq : other = entry
      · rw [← hreason, heq, herror]
      · rw [honly other hother heq] at hreason
        cases hreason

theorem ne_tooDeep : take start options ≠ .error .tooDeep := by
  rw [Ne, htakes.eq_error_iff]
  intro hfirst
  obtain ⟨entry, -, hcomplaint⟩ := List.exists_of_findSome?_eq_some hfirst
  rw [complaint?] at hcomplaint
  split_ifs at hcomplaint
  · split at hcomplaint <;> cases hcomplaint
  · cases hcomplaint

end TakesOption

/-! ## Formats -/

/-- The same text, two dumps that are too deep, or two other failures. -/
structure SameOutcome (left right : Except FormatError String) : Prop where
  text : ∀ text, left = .ok text ↔ right = .ok text
  tooDeep : left = .error .tooDeep ↔ right = .error .tooDeep

/-- A format writes a tree with options that are a map: their order does not
count, only accepted maps have a text, and no option at all is as good as a plain
run. -/
structure TakesMap (format : Format) (root : Node) (options options' : Options)
    (accepted : String → Prop) : Prop where
  anyOrder : SameOutcome (format.serializeWith root options) (format.serializeWith root options')
  accepts : ∀ text, format.serializeWith root options = .ok text ↔ accepted text
  empty : format.serializeWith root [] = format.serialize root

/-- The only wrong entry is the one that is named, in every order. -/
structure NamesEntry {α : Type} (format : Format) (key : String) (read : String → Option α)
    (root : Node) (options options' : Options) : Prop where
  names : ∀ entry ∈ options, ∀ error, complaint? key format.name read entry = some error →
    (∀ other ∈ options, other ≠ entry → complaint? key format.name read other = none) →
      format.serializeWith root options = .error error ∧
        format.serializeWith root options' = .error error

/-- The options of a format that provides nothing for them. -/
def Format.KeepsDefault (format : Format) : Prop :=
  ∀ root options, format.serializeWith root options =
    ({ name := format.name, serialize := format.serialize } : Format).serializeWith root options

section

variable {α : Type} {key : String} {read : String → Option α} {format : Format}
  {take : α → Options → Except FormatError α} {start : α} {root : Node}
  {render : α → Except FormatError String} {options options' : Options}

theorem TakesOption.takesMap (htakes : TakesOption key format.name read take)
    (hrun : ∀ options, format.serializeWith root options = take start options >>= render)
    (hplain : format.serialize root = render start) (hnodup : options.keys.Nodup)
    (hperm : options.Perm options') :
    TakesMap format root options options' fun text =>
      ∃ result, Gives key read start options result ∧ render result = .ok text where
  anyOrder := by
    have hsame (result : α) : take start options = .ok result ↔ take start options' = .ok result :=
      htakes.eq_ok_iff_of_perm hnodup hperm
    constructor
    · intro text
      simp only [hrun, bind_ok_iff, hsame]
    · simp only [hrun, bind_error_iff, htakes.ne_tooDeep, false_or, hsame]
  accepts text := by simp only [hrun, bind_ok_iff, htakes.eq_ok_iff hnodup]
  empty := by
    rw [hrun, htakes.nil, hplain]
    rfl

theorem TakesOption.namesEntry (htakes : TakesOption key format.name read take)
    (hrun : ∀ options, format.serializeWith root options = take start options >>= render)
    (hperm : options.Perm options') : NamesEntry format key read root options options' where
  names := by
    intro entry hentry error herror honly
    have hrefused {options : Options} (hresult : take start options = .error error) :
        format.serializeWith root options = .error error := by
      rw [hrun, hresult]
      rfl
    constructor
    · exact hrefused (htakes.eq_error_of_only hentry herror honly)
    · apply hrefused (htakes.eq_error_of_only (hperm.mem_iff.mp hentry) herror _)
      exact fun other hother => honly other (hperm.mem_iff.mpr hother)

theorem Format.KeepsDefault.takesMap (hdefault : format.KeepsDefault)
    (hperm : options.Perm options') :
    TakesMap format root options options' fun text =>
      options = [] ∧ format.serialize root = .ok text where
  anyOrder := by
    have hrefuses (entry : String × String) (rest : Options) :
        format.serializeWith root (entry :: rest) =
          .error (.notSupported format.name .options) := hdefault root (entry :: rest)
    cases options with
    | nil =>
        rw [List.nil_perm.mp hperm]
        exact ⟨fun text => Iff.rfl, Iff.rfl⟩
    | cons entry rest =>
        cases options' with
        | nil => exact absurd hperm.length_eq (by simp)
        | cons entry' rest' =>
            rw [hrefuses, hrefuses]
            exact ⟨fun text => Iff.rfl, Iff.rfl⟩
  accepts text := by
    rw [hdefault]
    cases options <;> simp
  empty := hdefault root []

end

/-- No format depends on the order of its options. -/
theorem serializeWith_any_order (root : Node) {options options' : Options}
    (hnodup : options.keys.Nodup) (hperm : options.Perm options') :
    (∀ level,
      TakesMap (tagFormat level) root options options' (fun text =>
        ∃ used, Gives initialLevelOption Decimal.readWord? level options used ∧
          (tagFormat used).serialize root = .ok text) ∧
      NamesEntry (tagFormat level) initialLevelOption Decimal.readWord? root options options') ∧
    (∀ pretty,
      TakesMap (jsonFormat pretty) root options options' (fun text =>
        ∃ used, Gives prettyOption readPretty? pretty options used ∧
          (jsonFormat used).serialize root = .ok text) ∧
      NamesEntry (jsonFormat pretty) prettyOption readPretty? root options options') ∧
    ∀ format : Format, format.KeepsDefault →
      TakesMap format root options options' fun text =>
        options = [] ∧ format.serialize root = .ok text := by
  refine ⟨fun level => ?tag, fun pretty => ?json, fun format hdefault => hdefault.takesMap hperm⟩
  case tag =>
    have hrun (options : Options) :
        (tagFormat level).serializeWith root options = levelWith level options >>= dumpText root :=
      rfl
    have htakes : TakesOption _ (tagFormat level).name _ _ := takesOption_levelWith
    exact ⟨htakes.takesMap hrun rfl hnodup hperm, htakes.namesEntry hrun hperm⟩
  case json =>
    have hrun (options : Options) :
        (jsonFormat pretty).serializeWith root options =
          prettyWith pretty options >>= fun used => (jsonFormat used).serialize root :=
      rfl
    have htakes : TakesOption _ (jsonFormat pretty).name _ _ := takesOption_prettyWith
    exact ⟨htakes.takesMap hrun rfl hnodup hperm, htakes.namesEntry hrun hperm⟩

/-- The one entry that is not known is named, wherever it stands. -/
theorem serializeWith_any_order_unknownPretty :
    (Options.keys [(initialLevelOption, "2"), (prettyOption, "yes")]).Nodup ∧
      List.Perm [(initialLevelOption, "2"), (prettyOption, "yes")]
        [(prettyOption, "yes"), (initialLevelOption, "2")] ∧
      (tagFormat 0).serializeWith (.integer 7)
          [(prettyOption, "yes"), (initialLevelOption, "2")] =
        .error (.notSupported tagName (.option prettyOption)) := by
  have hnodup : (Options.keys [(initialLevelOption, "2"), (prettyOption, "yes")]).Nodup := by
    decide
  have hperm : List.Perm [(initialLevelOption, "2"), (prettyOption, "yes")]
      [(prettyOption, "yes"), (initialLevelOption, "2")] := List.Perm.swap _ _ []
  have hnames := ((serializeWith_any_order (.integer 7) hnodup hperm).1 0).2
  refine ⟨hnodup, hperm, (hnames.names (prettyOption, "yes") (by simp) _ rfl ?_).2⟩
  intro other hother hne
  obtain rfl : other = (initialLevelOption, "2") := by simpa [hne] using hother
  rfl

end SyntaxDump

import Mathlib.Tactic
import SyntaxDump.Proofs.CommandLine.Options

/-!
# Extra parameters by their neighbours

`splitExtras` walks over the arguments and takes one or two of them at a time.
What becomes of an argument depends on its neighbours only: it is left to the
program unless it is a parameter or the value of the parameter in front of it,
and a parameter has the argument behind it as its value unless that one starts
with a dash.  So the arguments that are left are a filter over all of them, each
seen with its predecessor, and the value of a key is that of the last parameter
with this key, seen with its successor.  Both sides of a list that is cut where
no value is torn off are split on their own.
-/

namespace SyntaxDump
namespace CommandLine

/-! ## Parameters and dashes -/

theorem extraKey?_eq_some {argument key : String} :
    extraKey? argument = some key ↔
      argument = "--extra-" ++ key ∨ argument = "--extras-" ++ key := by
  have hstart : ∀ start : String,
      (start.toList.isPrefixOf? argument.toList).map String.ofList = some key ↔
        argument = start ++ key := by
    intro start
    rw [Option.map_eq_some_iff]
    constructor
    · rintro ⟨rest, hrest, rfl⟩
      have happend := List.isPrefixOf?_eq_some_iff_append_eq.mp hrest
      rw [← String.toList_inj, String.toList_append, String.toList_ofList, happend]
    · rintro rfl
      exact ⟨key.toList, List.isPrefixOf?_eq_some_iff_append_eq.mpr String.toList_append.symm,
        String.ofList_toList⟩
  simp only [extraKey?, Option.map_or, Option.or_eq_some_iff, hstart]
  constructor
  · rintro (hshort | ⟨-, hlong⟩)
    · exact .inl hshort
    · exact .inr hlong
  · rintro (hshort | hlong)
    · exact .inl hshort
    · subst hlong
      rw [String.toList_append]
      exact .inr ⟨rfl, rfl⟩

theorem startsWithDash_append (rest : String) : startsWithDash ("-" ++ rest) = true := by
  rw [startsWithDash, String.toList_append]
  rfl

theorem startsWithDash_iff {argument : String} :
    startsWithDash argument = true ↔ ∃ rest, argument = "-" ++ rest := by
  constructor
  · intro hdash
    rw [startsWithDash, beq_iff_eq] at hdash
    obtain ⟨rest, hrest⟩ := List.head?_eq_some_iff.mp hdash
    refine ⟨String.ofList rest, ?_⟩
    rw [← String.toList_inj, hrest]
    simp
  · rintro ⟨rest, rfl⟩
    exact startsWithDash_append rest

theorem startsWithDash_of_extraKey? {argument key : String}
    (hkey : extraKey? argument = some key) : startsWithDash argument = true := by
  rcases extraKey?_eq_some.mp hkey with rfl | rfl
  · exact startsWithDash_append ("-extra-" ++ key)
  · exact startsWithDash_append ("-extras-" ++ key)

theorem extraKey?_of_no_dash {argument : String} (hdash : startsWithDash argument = false) :
    extraKey? argument = none := by
  cases hkey : extraKey? argument with
  | none => rfl
  | some key =>
      rw [startsWithDash_of_extraKey? hkey] at hdash
      cases hdash

theorem arguments_addExtra (later : Split) (key value : String) :
    (later.addExtra key value).arguments = later.arguments := by
  unfold Split.addExtra
  split <;> rfl

/-! ## Arguments that are left -/

def isParameter (argument : String) : Bool := (extraKey? argument).isSome

/-- Is an argument the value of the one in front of it? -/
def isOwnedBy (previous : Option String) (argument : String) : Bool :=
  previous.any isParameter && !startsWithDash argument

/-- Every argument behind the one in front of it. -/
def withPrevious (previous : Option String) (arguments : List String) :
    List (Option String × String) :=
  (previous :: arguments.map some).zip arguments

/-- The arguments that are neither parameters nor values of parameters. -/
def keptArguments (previous : Option String) (arguments : List String) : List String :=
  ((withPrevious previous arguments).filter fun (previous, argument) =>
    !isParameter argument && !isOwnedBy previous argument).map Prod.snd

section

variable {previous : Option String} {argument value key : String} {arguments rest : List String}

theorem keptArguments_cons :
    keptArguments previous (argument :: rest) =
      if !isParameter argument && !isOwnedBy previous argument then
        argument :: keptArguments (some argument) rest
      else keptArguments (some argument) rest := by
  have hpairs : withPrevious previous (argument :: rest) =
      (previous, argument) :: withPrevious (some argument) rest := rfl
  rw [keptArguments, hpairs, List.filter_cons]
  dsimp only
  split_ifs <;> rfl

theorem keptArguments_parameter (hkey : extraKey? argument = some key) :
    keptArguments previous (argument :: rest) = keptArguments (some argument) rest := by
  simp [keptArguments_cons, isParameter, hkey]

theorem keptArguments_owned (hkey : extraKey? argument = some key)
    (hdash : startsWithDash value = false) :
    keptArguments (some argument) (value :: rest) = keptArguments (some value) rest := by
  simp [keptArguments_cons, isOwnedBy, isParameter, hkey, hdash]

theorem keptArguments_other (hkey : extraKey? argument = none) :
    keptArguments none (argument :: rest) = argument :: keptArguments (some argument) rest := by
  simp [keptArguments_cons, isOwnedBy, isParameter, hkey]

/-- No argument can be torn off between these two. -/
def Separable (previous next : Option String) : Prop :=
  (∀ argument ∈ previous, extraKey? argument = none) ∨
    ∀ argument ∈ next, startsWithDash argument = true

/-- What is in front does not matter where nothing can be torn off. -/
theorem keptArguments_of_separable (hseparable : Separable previous arguments.head?) :
    keptArguments previous arguments = keptArguments none arguments := by
  cases arguments with
  | nil => rfl
  | cons argument rest =>
      have hprevious : isOwnedBy previous argument = false := by
        rcases hseparable with hother | hdash
        · cases previous with
          | none => rfl
          | some last => simp [isOwnedBy, isParameter, hother last rfl]
        · simp [isOwnedBy, hdash argument rfl]
      have hnone : isOwnedBy none argument = false := rfl
      rw [keptArguments_cons, keptArguments_cons, hprevious, hnone]

theorem arguments_splitExtras (arguments : List String) :
    (splitExtras arguments).arguments = keptArguments none arguments := by
  fun_induction splitExtras arguments with
  | case1 => rfl
  | case2 argument rest hkey ih =>
      have hseparable : Separable (some argument) rest.head? := .inl (by simpa using hkey)
      rw [keptArguments_other hkey, keptArguments_of_separable hseparable, ← ih]
      rfl
  | case3 argument key hkey =>
      rw [keptArguments_parameter hkey]
      rfl
  | case4 argument key hkey value later hdash ih =>
      have hseparable : Separable (some argument) (value :: later).head? :=
        .inr (by simpa using hdash)
      rw [keptArguments_parameter hkey, keptArguments_of_separable hseparable, ← ih,
        arguments_addExtra]
  | case5 argument key hkey value later hdash ih =>
      have hdash : startsWithDash value = false := by simpa using hdash
      have hvalue := extraKey?_of_no_dash hdash
      have hseparable : Separable (some value) later.head? := .inl (by simpa using hvalue)
      rw [keptArguments_parameter hkey, keptArguments_owned hkey hdash,
        keptArguments_of_separable hseparable, ← ih, arguments_addExtra]

end

/-! ## Values of parameters -/

/-- The value of a parameter in front of an argument. -/
def valueBefore (next : Option String) : String :=
  match next with
  | some argument => if startsWithDash argument then defaultExtra else argument
  | none => defaultExtra

/-- The value of the last parameter with a key. -/
def lastValue? (key : String) : List String → Option String
  | [] => none
  | argument :: rest =>
      (lastValue? key rest).or
        (if extraKey? argument = some key then some (valueBefore rest.head?) else none)

section

variable {key value : String} {arguments : List String}

theorem lastValue?_eq_none_iff :
    lastValue? key arguments = none ↔ ∀ argument ∈ arguments, extraKey? argument ≠ some key := by
  induction arguments with
  | nil => simp [lastValue?]
  | cons argument rest ih => simp [lastValue?, ih, and_comm]

theorem lastValue?_append_parameter {front back : List String} {argument : String}
    (hkey : extraKey? argument = some key)
    (hback : ∀ other ∈ back, extraKey? other ≠ some key) :
    lastValue? key (front ++ argument :: back) = some (valueBefore back.head?) := by
  induction front with
  | nil => simp [lastValue?, lastValue?_eq_none_iff.mpr hback, hkey]
  | cons first front ih => simp [lastValue?, ih]

theorem lastValue?_eq_some_iff :
    lastValue? key arguments = some value ↔
      ∃ front argument back, arguments = front ++ argument :: back ∧
        extraKey? argument = some key ∧ (∀ other ∈ back, extraKey? other ≠ some key) ∧
        valueBefore back.head? = value := by
  constructor
  · intro hvalue
    induction arguments with
    | nil => cases hvalue
    | cons argument rest ih =>
        rw [lastValue?] at hvalue
        cases hrest : lastValue? key rest with
        | some later =>
            obtain ⟨front, other, back, rfl, hother⟩ := ih (by simpa [hrest] using hvalue)
            exact ⟨argument :: front, other, back, rfl, hother⟩
        | none =>
            rw [hrest, Option.none_or] at hvalue
            split_ifs at hvalue with hkey
            exact ⟨[], argument, rest, rfl, hkey, lastValue?_eq_none_iff.mp hrest,
              Option.some.inj hvalue⟩
  · rintro ⟨front, argument, back, rfl, hkey, hback, rfl⟩
    exact lastValue?_append_parameter hkey hback

theorem lookup_eq_none_of_not_has {options : Options} (hkey : options.has key = false) :
    options.lookup key = none := by
  rw [List.lookup_eq_none_iff]
  intro pair hpair
  have hname : (pair.1 == key) = false := by simpa using List.any_eq_false.mp hkey pair hpair
  rw [bne, BEq.comm, hname]
  rfl

theorem exists_lookup_of_has {options : Options} (hkey : options.has key = true) :
    ∃ known, options.lookup key = some known := by
  obtain ⟨pair, hpair, hname⟩ := List.any_eq_true.mp hkey
  exact Option.isSome_iff_exists.mp
    (List.lookup_isSome_iff.mpr ⟨pair, hpair, by rw [BEq.comm]; exact hname⟩)

theorem lookup_addExtra (later : Split) (name given : String) :
    (later.addExtra name given).extras.lookup key =
      (later.extras.lookup key).or (if name = key then some given else none) := by
  unfold Split.addExtra
  by_cases hname : name = key
  · subst hname
    cases hhas : later.extras.has name with
    | true =>
        obtain ⟨known, hknown⟩ := exists_lookup_of_has hhas
        simp [hknown]
    | false => simp [lookup_eq_none_of_not_has hhas]
  · have hother : (key == name) = false := by simpa using Ne.symm hname
    rw [if_neg hname, Option.or_none]
    split
    · rfl
    · simp [List.lookup_cons, hother]

theorem lookup_splitExtras (arguments : List String) :
    (splitExtras arguments).extras.lookup key = lastValue? key arguments := by
  fun_induction splitExtras arguments with
  | case1 => rfl
  | case2 argument rest hkey ih => simp [lastValue?, hkey, ← ih, Split.addArgument]
  | case3 argument name hkey =>
      by_cases hname : name = key
      · simp [lastValue?, hkey, hname, valueBefore]
      · have hother : (key == name) = false := by simpa using Ne.symm hname
        simp [lastValue?, hkey, hname, List.lookup_cons, hother]
  | case4 argument name hkey value later hdash ih =>
      rw [lookup_addExtra, ih]
      simp [lastValue?, hkey, valueBefore, hdash]
  | case5 argument name hkey value later hdash ih =>
      have hvalue : extraKey? value = none := extraKey?_of_no_dash (by simpa using hdash)
      rw [lookup_addExtra, ih]
      simp [lastValue?, hkey, valueBefore, hdash, hvalue]

/-- The keys are those of the parameters. -/
theorem mem_keys_splitExtras :
    key ∈ (splitExtras arguments).extras.keys ↔
      ∃ argument ∈ arguments, extraKey? argument = some key := by
  rw [← Options.has_iff]
  cases hkey : (splitExtras arguments).extras.has key with
  | true =>
      obtain ⟨value, hvalue⟩ := exists_lookup_of_has hkey
      rw [lookup_splitExtras] at hvalue
      by_contra hnone
      have habsent : lastValue? key arguments = none :=
        lastValue?_eq_none_iff.mpr (by simpa using hnone)
      rw [habsent] at hvalue
      cases hvalue
  | false =>
      have habsent := lookup_eq_none_of_not_has hkey
      rw [lookup_splitExtras, lastValue?_eq_none_iff] at habsent
      simpa using habsent

/-- The extra parameters on a command line are a map. -/
theorem nodup_keys_splitExtras (arguments : List String) :
    (splitExtras arguments).extras.keys.Nodup := by
  have hadd : ∀ {later : Split} (key value : String), later.extras.keys.Nodup →
      (later.addExtra key value).extras.keys.Nodup := by
    intro later key value hlater
    unfold Split.addExtra
    split
    · exact hlater
    · rename_i hkey
      rw [Options.has_iff] at hkey
      exact List.nodup_cons.mpr ⟨hkey, hlater⟩
  fun_induction splitExtras arguments with
  | case1 => exact List.nodup_nil
  | case2 argument rest hkey ih => exact ih
  | case3 argument key hkey => exact List.nodup_singleton key
  | case4 argument key hkey value later hdash ih => exact hadd key defaultExtra ih
  | case5 argument key hkey value later hdash ih => exact hadd key value ih

end

/-! ## Lists that are cut, and lists that are split again -/

section

variable {previous : Option String} {key : String} {arguments front back : List String}

/-- A parameter in front of a cut has no value of its own. -/
theorem valueBefore_of_separable {argument : String} {next : Option String}
    (hseparable : Separable (some argument) next) (hkey : extraKey? argument = some key) :
    valueBefore next = defaultExtra := by
  cases next with
  | none => rfl
  | some value =>
      have hdash : startsWithDash value = true := by
        rcases hseparable with hother | hdash
        · simp [hother argument rfl] at hkey
        · exact hdash value rfl
      exact if_pos hdash

/-- Where nothing can be torn off, the last parameter on the right counts. -/
theorem lastValue?_append (hseparable : Separable front.getLast? back.head?) :
    lastValue? key (front ++ back) = (lastValue? key back).or (lastValue? key front) := by
  induction front with
  | nil => simp [lastValue?]
  | cons argument front ih =>
      cases front with
      | nil =>
          have hvalue : extraKey? argument = some key → valueBefore back.head? = valueBefore none :=
            valueBefore_of_separable hseparable
          rw [List.singleton_append, lastValue?, lastValue?, lastValue?, Option.none_or]
          split_ifs with hkey
          · rw [hvalue hkey]
            rfl
          · rfl
      | cons second front =>
          rw [List.getLast?_cons_cons] at hseparable
          rw [List.cons_append, lastValue?, ih hseparable, Option.or_assoc]
          rfl

theorem keptArguments_append :
    keptArguments previous (front ++ back) =
      keptArguments previous front ++ keptArguments (front.getLast?.or previous) back := by
  induction front generalizing previous with
  | nil => rfl
  | cons argument front ih =>
      have hlast : (argument :: front).getLast?.or previous =
          front.getLast?.or (some argument) := by
        cases front with
        | nil => rfl
        | cons second front => simp [List.getLast?_cons]
      rw [List.cons_append, keptArguments_cons, keptArguments_cons, ih, hlast]
      split_ifs <;> rfl

theorem splitExtras_of_no_parameters (hother : ∀ argument ∈ arguments, extraKey? argument = none) :
    splitExtras arguments = ⟨arguments, []⟩ := by
  induction arguments with
  | nil => rfl
  | cons argument rest ih =>
      have hrest := ih fun other hmem => hother other (List.mem_cons_of_mem _ hmem)
      rw [splitExtras.eq_def]
      simp [hother argument List.mem_cons_self, hrest, Split.addArgument]

theorem extraKey?_of_mem_keptArguments {argument : String}
    (hmem : argument ∈ keptArguments previous arguments) : extraKey? argument = none := by
  obtain ⟨⟨before, kept⟩, hfilter, rfl⟩ := List.mem_map.mp hmem
  have hkept := (List.mem_filter.mp hfilter).2
  simp only [isParameter, Bool.and_eq_true, Bool.not_eq_true', Option.isSome_eq_false_iff,
    Option.isNone_iff_eq_none] at hkept
  exact hkept.1

end

/-! ## Both spellings -/

/-- The same argument, or the same parameter in the other spelling. -/
inductive Respelled : String → String → Prop
  | same (argument : String) : Respelled argument argument
  | longer (key : String) : Respelled ("--extra-" ++ key) ("--extras-" ++ key)
  | shorter (key : String) : Respelled ("--extras-" ++ key) ("--extra-" ++ key)

namespace Respelled

variable {argument other : String} {arguments others : List String}

theorem extraKey?_eq (hrespelled : Respelled argument other) :
    extraKey? argument = extraKey? other := by
  have hshort (key : String) : extraKey? ("--extra-" ++ key) = some key :=
    extraKey?_eq_some.mpr (.inl rfl)
  have hlong (key : String) : extraKey? ("--extras-" ++ key) = some key :=
    extraKey?_eq_some.mpr (.inr rfl)
  cases hrespelled with
  | same => rfl
  | longer key => rw [hshort, hlong]
  | shorter key => rw [hshort, hlong]

theorem eq_of_extraKey?_eq_none (hrespelled : Respelled argument other)
    (hkey : extraKey? argument = none) : argument = other := by
  cases hrespelled with
  | same => rfl
  | longer key => simp [extraKey?_eq_some.mpr (.inl rfl : _ ∨ _ = "--extras-" ++ key)] at hkey
  | shorter key => simp [extraKey?_eq_some.mpr (.inr rfl : _ = "--extra-" ++ key ∨ _)] at hkey

theorem startsWithDash_eq (hrespelled : Respelled argument other) :
    startsWithDash argument = startsWithDash other := by
  cases hkey : extraKey? argument with
  | none => rw [hrespelled.eq_of_extraKey?_eq_none hkey]
  | some key =>
      rw [startsWithDash_of_extraKey? hkey,
        startsWithDash_of_extraKey? (hrespelled.extraKey?_eq.symm.trans hkey)]

theorem splitExtras_eq (hrespelled : List.Forall₂ Respelled arguments others) :
    splitExtras arguments = splitExtras others := by
  fun_induction splitExtras arguments generalizing others with
  | case1 =>
      cases hrespelled
      rfl
  | case2 argument rest hkey ih =>
      obtain ⟨other, others, hfirst, hrest, rfl⟩ := List.forall₂_cons_left_iff.mp hrespelled
      obtain rfl := hfirst.eq_of_extraKey?_eq_none hkey
      rw [ih hrest, splitExtras.eq_def (argument :: _)]
      simp [hkey]
  | case3 argument key hkey =>
      obtain ⟨other, others, hfirst, hrest, rfl⟩ := List.forall₂_cons_left_iff.mp hrespelled
      cases hrest
      rw [splitExtras.eq_def]
      simp [← hfirst.extraKey?_eq, hkey]
  | case4 argument key hkey value later hdash ih =>
      obtain ⟨other, others, hfirst, hrest, rfl⟩ := List.forall₂_cons_left_iff.mp hrespelled
      rw [ih hrest]
      obtain ⟨value', others, hvalue, hlater, rfl⟩ := List.forall₂_cons_left_iff.mp hrest
      rw [splitExtras.eq_def (other :: _)]
      simp [← hfirst.extraKey?_eq, hkey, ← hvalue.startsWithDash_eq, hdash]
  | case5 argument key hkey value later hdash ih =>
      obtain ⟨other, others, hfirst, hrest, rfl⟩ := List.forall₂_cons_left_iff.mp hrespelled
      obtain ⟨value', others, hvalue, hlater, rfl⟩ := List.forall₂_cons_left_iff.mp hrest
      obtain rfl := hvalue.eq_of_extraKey?_eq_none (extraKey?_of_no_dash (by simpa using hdash))
      rw [splitExtras.eq_def (other :: _)]
      simp [← hfirst.extraKey?_eq, hkey, hdash, ih hlater]

end Respelled

/-! ## The whole split -/

/-- What an argument list is split into, as the neighbours of each argument
have it. -/
structure SplitsInto (arguments : List String) (split : Split) : Prop where
  kept : split.arguments = keptArguments none arguments
  keys : ∀ key, key ∈ split.extras.keys ↔ ∃ argument ∈ arguments, extraKey? argument = some key
  nodup : split.extras.keys.Nodup
  values : ∀ key value, split.extras.lookup key = some value ↔
    ∃ front argument back, arguments = front ++ argument :: back ∧
      extraKey? argument = some key ∧ (∀ other ∈ back, extraKey? other ≠ some key) ∧
      valueBefore back.head? = value

theorem splitsInto_splitExtras (arguments : List String) :
    SplitsInto arguments (splitExtras arguments) where
  kept := arguments_splitExtras arguments
  keys _ := mem_keys_splitExtras
  nodup := nodup_keys_splitExtras arguments
  values key value := by rw [lookup_splitExtras, lastValue?_eq_some_iff]

/-- Every list is split by the neighbours of its arguments.  So nothing is left
to split off the other arguments, the spelling of a parameter does not count,
and the parts of a list that is cut next to no value are split on their own, with
the parameters on the right in front. -/
theorem splitExtras_by_neighbours (arguments : List String) :
    (∀ argument key, extraKey? argument = some key ↔
      argument = "--extra-" ++ key ∨ argument = "--extras-" ++ key) ∧
    (∀ argument, startsWithDash argument = true ↔ ∃ rest, argument = "-" ++ rest) ∧
    SplitsInto arguments (splitExtras arguments) ∧
    splitExtras (splitExtras arguments).arguments = ⟨(splitExtras arguments).arguments, []⟩ ∧
    (∀ others, List.Forall₂ Respelled arguments others →
      splitExtras others = splitExtras arguments) ∧
    ∀ later, Separable arguments.getLast? later.head? →
      (splitExtras (arguments ++ later)).arguments =
        (splitExtras arguments).arguments ++ (splitExtras later).arguments ∧
      ∀ key, (splitExtras (arguments ++ later)).extras.lookup key =
        ((splitExtras later).extras.lookup key).or ((splitExtras arguments).extras.lookup key) := by
  refine ⟨fun argument key => extraKey?_eq_some, fun argument => startsWithDash_iff,
    splitsInto_splitExtras arguments, ?again, ?respelled, ?cut⟩
  case again =>
    rw [arguments_splitExtras]
    exact splitExtras_of_no_parameters fun argument => extraKey?_of_mem_keptArguments
  case respelled => exact fun others hrespelled => (Respelled.splitExtras_eq hrespelled).symm
  case cut =>
    intro later hseparable
    constructor
    · rw [arguments_splitExtras, arguments_splitExtras, arguments_splitExtras,
        keptArguments_append, Option.or_none, keptArguments_of_separable hseparable]
    · intro key
      rw [lookup_splitExtras, lookup_splitExtras, lookup_splitExtras,
        lastValue?_append hseparable]

/-- A parameter takes no value that starts with a dash, and the last value of a
key counts. -/
example :
    splitExtras ["--extra-a", "1", "x", "--extras-a", "--extra-b", "-v", "--extra-a", ""] =
      ⟨["x", "-v"], [("b", "true"), ("a", "")]⟩ := by
  rfl

end CommandLine
end SyntaxDump

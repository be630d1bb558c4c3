import Mathlib
import SyntaxDump.Config.Loader

/-!
# How layers of settings combine

Files and single settings are added to a loader in any order.  Whatever the
order, the defaults lie at the bottom, the files come next and the single
settings lie on top; for each field the last of them that gives it a value
wins.

A file is described by what it says about a field, entry by entry.  A table is
merged into the one that stands in its place, so a file that is silent about a
field leaves it as it is, whatever else the file sets.  The invariant of the
whole run is that the tree of settings holds a value of the right sort under
the key of each field.
-/

namespace SyntaxDump
namespace Config

/-! ## Entries -/

namespace Setting

theorem lookup_cons_eq_ite (name key : String) (setting : Setting)
    (entries : List (String × Setting)) :
    List.lookup key ((name, setting) :: entries) =
      if key = name then some setting else entries.lookup key := by
  by_cases hkey : key = name
  · simp [hkey]
  · have hdiffers : (key == name) = false := by simpa using hkey
    rw [List.lookup_cons, hdiffers, if_neg hkey]

theorem lookup_replaceEntry (name key : String) (setting : Setting)
    (entries : List (String × Setting)) :
    (replaceEntry name setting entries).lookup key =
      if key = name then some setting else entries.lookup key := by
  induction entries with
  | nil => exact lookup_cons_eq_ite name key setting []
  | cons entry rest ih =>
      obtain ⟨other, old⟩ := entry
      rw [replaceEntry, lookup_cons_eq_ite other]
      by_cases hother : other = name
      · subst hother
        by_cases hkey : key = other <;> simp [lookup_cons_eq_ite, hkey]
      · rw [if_neg hother, lookup_cons_eq_ite, ih]
        by_cases hkey : key = other
        · subst hkey
          simp [hother]
        · simp [hkey]

@[simp]
theorem entry?_setEntry (target : Setting) (name key : String) (setting : Setting) :
    entry? (target.setEntry name setting) key =
      if key = name then some setting else target.entry? key := by
  cases target with
  | table origin entries => exact lookup_replaceEntry name key setting entries
  | scalar origin value => exact lookup_cons_eq_ite name key setting []
  | array origin items => exact lookup_cons_eq_ite name key setting []

theorem put_eq_setEntry (target : Setting) (name : String) (setting : Setting) :
    ∃ inner, target.put name setting = target.setEntry (Text.lower name) inner := by
  cases setting with
  | table origin entries => exact ⟨_, by rw [put]⟩
  | scalar origin value => exact ⟨_, by rw [put]; simp⟩
  | array origin items => exact ⟨_, by rw [put]; simp⟩

theorem putAll_eq_foldl (target : Setting) (entries : List (String × Setting)) :
    target.putAll entries =
      entries.foldl (fun target entry => target.put entry.1 entry.2) target := by
  induction entries generalizing target with
  | nil => rw [putAll, List.foldl_nil]
  | cons entry rest ih => rw [putAll, ih, List.foldl_cons]

theorem ofTomlEntries_eq_map (origin : Option String) (entries : List (String × Toml.Value)) :
    ofTomlEntries origin entries = entries.map fun entry => (entry.1, ofToml origin entry.2) := by
  induction entries with
  | nil => rw [ofTomlEntries, List.map_nil]
  | cons entry rest ih => rw [ofTomlEntries, ih, List.map_cons]

end Setting

/-- A path that starts with a name changes that entry only. -/
theorem Path.place_eq_setEntry (setting : Setting) (name : String) (path : Path)
    (target : Setting) :
    ∃ inner, Path.place setting (.entry name :: path) target =
      target.setEntry (Text.lower name) inner := by
  cases path with
  | nil =>
      rw [Path.place]
      exact target.put_eq_setEntry name setting
  | cons step path => exact ⟨_, by rw [Path.place]; simp⟩

theorem Path.entry?_place_of_ne {name key : String} (hname : Text.lower name ≠ key)
    (setting : Setting) (path : Path) (target : Setting) :
    Setting.entry? (Path.place setting (.entry name :: path) target) key = target.entry? key := by
  obtain ⟨inner, hplaced⟩ := Path.place_eq_setEntry setting name path target
  rw [hplaced, Setting.entry?_setEntry, if_neg (Ne.symm hname)]

/-! ## Fields and what documents say about them -/

/-- A field of the configuration: where it stands, and how its values are
written in a document and in a tree of settings. -/
structure Field (α : Type) where
  group : String
  member : String
  toml : α → Toml.Value
  scalar : α → Scalar
  ofToml_toml : ∀ origin value,
    Setting.ofToml origin (toml value) = .scalar origin (scalar value)

def levelField : Field UInt64 where
  group := dumpGroup.name
  member := dumpGroup.member
  toml level := .integer level.toNat
  scalar level := .integer level.toNat
  ofToml_toml _ _ := by rw [Setting.ofToml]

def prettyField : Field Bool where
  group := jsonGroup.name
  member := jsonGroup.member
  toml pretty := .bool pretty
  scalar pretty := .bool pretty
  ofToml_toml _ _ := by rw [Setting.ofToml]

/-- The place that the name of an entry of a document stands for. -/
def entryPath (name : String) : Path := (Path.parse? name).getD [.entry name]

theorem putEntry_eq_place (root : Setting) (name : String) (setting : Setting) :
    putEntry root name setting = (entryPath name).place setting root := by
  unfold putEntry entryPath
  cases Path.parse? name with
  | none => simp [Path.place]
  | some path => rfl

section Tells

variable {α : Type}

/-- What a list of entries says about a field, if `Gives` relates an entry to
what it gives: the last entry that gives a value wins. -/
inductive Tells (Gives : String → Toml.Value → Option α → Prop) :
    List (String × Toml.Value) → Option α → Prop where
  | nil : Tells Gives [] none
  | cons {name value rest given later} : Gives name value given → Tells Gives rest later →
      Tells Gives ((name, value) :: rest) (later.or given)

/-- What an entry of the table of a group gives to the field in it. -/
inductive GivesMember (field : Field α) : String → Toml.Value → Option α → Prop where
  | beside {name value} : Text.lower name ≠ field.member → GivesMember field name value none
  | member {name value} : Text.lower name = field.member →
      GivesMember field name (field.toml value) (some value)

/-- What a value gives to a field if it stands where a path leads. -/
inductive GivesAt (field : Field α) : Path → Toml.Value → Option α → Prop where
  | elsewhere {name path value} : Text.lower name ≠ field.group →
      GivesAt field (.entry name :: path) value none
  | group {name entries given} : Text.lower name = field.group →
      Tells (GivesMember field) entries given →
      GivesAt field [.entry name] (.table entries) given
  | beside {name name' path value} : Text.lower name = field.group →
      Text.lower name' ≠ field.member →
      GivesAt field (.entry name :: .entry name' :: path) value none
  | member {name name' value} : Text.lower name = field.group →
      Text.lower name' = field.member →
      GivesAt field [.entry name, .entry name'] (field.toml value) (some value)

/-- A document, given by its entries, says nothing of a field or gives it a
valid value. -/
def DocumentTells (field : Field α) (entries : List (String × Toml.Value))
    (given : Option α) : Prop :=
  Tells (fun name => GivesAt field (entryPath name)) entries given

/-- If every entry brings the value it gives, so do all entries together. -/
theorem Tells.foldl {Gives : String → Toml.Value → Option α → Prop} {σ : Type}
    {Holds : σ → α → Prop} {step : σ → String × Toml.Value → σ}
    (hstep : ∀ {name value given state old}, Gives name value given → Holds state old →
      Holds (step state (name, value)) (given.getD old))
    {entries : List (String × Toml.Value)} {given : Option α} (htells : Tells Gives entries given)
    {state : σ} {old : α} (hholds : Holds state old) :
    Holds (entries.foldl step state) (given.getD old) := by
  induction htells generalizing state old with
  | nil => exact hholds
  | @cons name value rest given later hgives _ ih =>
      have hnext := ih (hstep hgives hholds)
      rw [List.foldl_cons]
      cases later with
      | none => exact hnext
      | some last => exact hnext

/-! ## One step -/

/-- A table holds a value as the member of its group. -/
def HoldsMember (field : Field α) (table : Setting) (value : α) : Prop :=
  ∃ origin, table.entry? field.member = some (.scalar origin (field.scalar value))

/-- The settings hold a value of a field. -/
def Holds (field : Field α) (root : Setting) (value : α) : Prop :=
  ∃ table, root.entry? field.group = some table ∧ HoldsMember field table value

theorem GivesMember.put {field : Field α} {name : String} {value : Toml.Value}
    {given : Option α} (hgives : GivesMember field name value given) (origin : Option String)
    {table : Setting} {old : α} (hholds : HoldsMember field table old) :
    HoldsMember field (table.put name (Setting.ofToml origin value)) (given.getD old) := by
  cases hgives with
  | beside hother =>
      obtain ⟨inner, hput⟩ := table.put_eq_setEntry name (Setting.ofToml origin value)
      obtain ⟨source, hfound⟩ := hholds
      refine ⟨source, ?_⟩
      rw [hput, Setting.entry?_setEntry, if_neg (Ne.symm hother)]
      exact hfound
  | member hsame =>
      refine ⟨origin, ?_⟩
      rw [field.ofToml_toml, Setting.put, Setting.entry?_setEntry, if_pos hsame.symm]
      · rfl
      · simp

theorem Tells.putAll {field : Field α} {entries : List (String × Toml.Value)}
    {given : Option α} (htells : Tells (GivesMember field) entries given) (origin : Option String)
    {table : Setting} {old : α} (hholds : HoldsMember field table old) :
    HoldsMember field (table.putAll (Setting.ofTomlEntries origin entries))
      (given.getD old) := by
  rw [Setting.putAll_eq_foldl, Setting.ofTomlEntries_eq_map, List.foldl_map]
  exact htells.foldl (fun hgives => hgives.put origin) hholds

/-- Putting a value where a path leads brings what it gives there, and keeps
the rest of the table that it is put into. -/
theorem GivesAt.place {field : Field α} {path : Path} {value : Toml.Value}
    {given : Option α} (hgives : GivesAt field path value given) (origin : Option String)
    {root : Setting} {old : α} (hholds : Holds field root old) :
    Holds field (path.place (Setting.ofToml origin value) root) (given.getD old) := by
  obtain ⟨table, hfound, hmember⟩ := hholds
  cases hgives with
  | elsewhere hother =>
      refine ⟨table, ?_, hmember⟩
      rw [Path.entry?_place_of_ne hother]
      exact hfound
  | @group name entries given hsame htells =>
      refine ⟨table.putAll (Setting.ofTomlEntries origin entries), ?_,
        htells.putAll origin hmember⟩
      rw [Path.place, Setting.ofToml, Setting.put]
      simp [hsame, hfound]
  | @beside name name' path value hsame hother =>
      refine ⟨Path.place (Setting.ofToml origin value) (.entry name' :: path) table, ?_, ?_⟩
      · rw [Path.place]
        · simp [hsame, hfound]
        · simp
      · obtain ⟨source, hheld⟩ := hmember
        refine ⟨source, ?_⟩
        rw [Path.entry?_place_of_ne hother]
        exact hheld
  | @member name name' value hsame hsame' =>
      refine ⟨table.put name' (Setting.ofToml origin (field.toml value)), ?_,
        (GivesMember.member hsame').put origin hmember⟩
      rw [Path.place]
      · simp [hsame, hfound, Path.place]
      · simp

theorem DocumentTells.putEntries {field : Field α} {entries : List (String × Toml.Value)}
    {given : Option α} (htells : DocumentTells field entries given) (origin : Option String)
    {root : Setting} {old : α} (hholds : Holds field root old) :
    Holds field ((Setting.ofTomlEntries origin entries).foldl
      (fun root (name, setting) => putEntry root name setting) root) (given.getD old) := by
  rw [Setting.ofTomlEntries_eq_map, List.foldl_map]
  refine Tells.foldl ?_ htells hholds
  intro name value given root old hgives hholds
  have hplaced := hgives.place origin hholds
  rwa [← putEntry_eq_place] at hplaced

/-- A text is a key of a field. -/
def Field.IsKey (field : Field α) (key : String) : Prop :=
  ∃ name name', Path.parse? key = some [.entry name, .entry name'] ∧
    Text.lower name = field.group ∧ Text.lower name' = field.member

theorem Field.givesAt_key {field : Field α} {key : String} (hkey : field.IsKey key)
    (value : α) :
    ∃ path, Path.parse? key = some path ∧ GivesAt field path (field.toml value) (some value) ∧
      ∀ {β : Type} (other : Field β), field.group ≠ other.group →
        GivesAt other path (field.toml value) none := by
  obtain ⟨name, name', hparse, hsame, hsame'⟩ := hkey
  exact ⟨_, hparse, .member hsame hsame', fun other hdiffers => .elsewhere (hsame ▸ hdiffers)⟩

end Tells

/-! ## Additions to a loader -/

/-- What can be added to a loader. -/
inductive Addition where
  | file (name : String) (required : Bool)
  | override (key : String) (value : Scalar)

namespace Addition

def isFile : Addition → Bool
  | file .. => true
  | override .. => false

def layer? : Addition → Option Layer
  | file name required => some ⟨name, required⟩
  | override .. => none

def override? : Addition → Option (Path × Scalar)
  | file .. => none
  | override key value => (Path.parse? key).map fun path => (path, value)

theorem filterMap_layer?_filter (additions : List Addition) :
    (additions.filter isFile).filterMap layer? = additions.filterMap layer? := by
  rw [List.filterMap_filter]
  congr 1
  funext addition
  cases addition <;> rfl

theorem filterMap_override?_filter (additions : List Addition) :
    (additions.filter (!·.isFile)).filterMap override? = additions.filterMap override? := by
  rw [List.filterMap_filter]
  congr 1
  funext addition
  cases addition <;> rfl

end Addition

def Loader.add? (loader : Loader) : Addition → Option Loader
  | .file name required => some (loader.withFile name required)
  | .override key value => loader.withOverride? key value

/-- The configuration after additions to the empty loader, if all of them are
possible. -/
def load (read : String → Option String) (additions : List Addition) :
    Option (Except LoadError Config) :=
  (additions.foldlM Loader.add? {}).map (·.build read)

/-- The keys of all single settings are paths. -/
def KeysParse (additions : List Addition) : Prop :=
  ∀ key value, .override key value ∈ additions → ∃ path, Path.parse? key = some path

-- The loader keeps files and single settings apart, so all that is left of
-- their order is the order within each of the two.
theorem foldlM_add? {additions : List Addition} (hkeys : KeysParse additions)
    (loader : Loader) :
    additions.foldlM Loader.add? loader =
      some ⟨loader.layers ++ additions.filterMap Addition.layer?,
        loader.overrides ++ additions.filterMap Addition.override?⟩ := by
  induction additions generalizing loader with
  | nil => simp
  | cons addition rest ih =>
      have hrest : KeysParse rest := fun key value hmem => hkeys key value (.tail _ hmem)
      cases addition with
      | file name required =>
          simp [Loader.add?, Loader.withFile, ih hrest, Addition.layer?, Addition.override?,
            List.filterMap_cons]
      | override key value =>
          obtain ⟨path, hparse⟩ := hkeys key value (.head _)
          simp [Loader.add?, Loader.withOverride?, hparse, ih hrest, Addition.layer?,
            Addition.override?, List.filterMap_cons]

theorem load_eq_build {additions : List Addition} (hkeys : KeysParse additions)
    (read : String → Option String) :
    load read additions = some (Loader.build ⟨additions.filterMap Addition.layer?,
      additions.filterMap Addition.override?⟩ read) := by
  simp [load, foldlM_add? hkeys]

theorem load_congr {additions others : List Addition} (hkeys : KeysParse additions)
    (hfiles : others.filter Addition.isFile = additions.filter Addition.isFile)
    (hoverrides : others.filter (!·.isFile) = additions.filter (!·.isFile))
    (read : String → Option String) : load read others = load read additions := by
  have hothers : KeysParse others := by
    intro key value hmem
    have hkept : Addition.override key value ∈ others.filter (!·.isFile) :=
      List.mem_filter.mpr ⟨hmem, rfl⟩
    rw [hoverrides] at hkept
    exact hkeys key value (List.mem_of_mem_filter hkept)
  rw [load_eq_build hkeys, load_eq_build hothers,
    ← Addition.filterMap_layer?_filter others, ← Addition.filterMap_override?_filter others,
    hfiles, hoverrides, Addition.filterMap_layer?_filter,
    Addition.filterMap_override?_filter]

/-! ## Statements -/

/-- An addition, and what it says about the two fields. -/
structure Statement where
  addition : Addition
  level? : Option UInt64
  pretty? : Option Bool

/-- A statement says what its addition means, with files as `read` finds
them. -/
inductive Statement.Holds (read : String → Option String) : Statement → Prop where
  | missing {name} : locate? read name = none → Holds read ⟨.file name false, none, none⟩
  | found {name required found text entries level? pretty?} :
      locate? read name = some (found, text) →
      Toml.read? (contentOf text) = some (.table entries) →
      DocumentTells levelField entries level? → DocumentTells prettyField entries pretty? →
      Holds read ⟨.file name required, level?, pretty?⟩
  | level {key level} : levelField.IsKey key →
      Holds read ⟨.override key (levelField.scalar level), some level, none⟩
  | pretty {key pretty} : prettyField.IsKey key →
      Holds read ⟨.override key (prettyField.scalar pretty), none, some pretty⟩

theorem keysParse_of_holds {read : String → Option String} {statements : List Statement}
    (hholds : ∀ statement ∈ statements, statement.Holds read) :
    KeysParse (statements.map Statement.addition) := by
  intro key value hmem
  obtain ⟨statement, hstatement, hsame⟩ := List.mem_map.mp hmem
  cases hholds statement hstatement with
  | missing => cases hsame
  | found => cases hsame
  | level hkey =>
      cases hsame
      obtain ⟨name, name', hparse, -⟩ := hkey
      exact ⟨_, hparse⟩
  | pretty hkey =>
      cases hsame
      obtain ⟨name, name', hparse, -⟩ := hkey
      exact ⟨_, hparse⟩

section Effective

variable {α : Type}

/-- The value that the last statement to give one gives. -/
def lastGiven (value? : Statement → Option α) (statements : List Statement) : Option α :=
  statements.reverse.findSome? value?

/-- The last single setting decides; if there is none, the last file; if no
file says anything, the default holds. -/
def effective (value? : Statement → Option α) (default : α) (statements : List Statement) : α :=
  ((lastGiven value? (statements.filter (!·.addition.isFile))).or
    (lastGiven value? (statements.filter (·.addition.isFile)))).getD default

theorem lastGiven_cons (value? : Statement → Option α) (statement : Statement)
    (statements : List Statement) :
    lastGiven value? (statement :: statements) =
      (lastGiven value? statements).or (value? statement) := by
  simp [lastGiven, List.findSome?_append]

theorem lastGiven_insert {value? : Statement → Option α} {statement : Statement}
    (hsilent : value? statement = none) (before after : List Statement) :
    lastGiven value? (before ++ statement :: after) = lastGiven value? (before ++ after) := by
  simp [lastGiven, List.findSome?_append, hsilent]

theorem effective_insert {value? : Statement → Option α} {statement : Statement}
    (hsilent : value? statement = none) (default : α) (before after : List Statement) :
    effective value? default (before ++ statement :: after) =
      effective value? default (before ++ after) := by
  unfold effective
  cases hfile : statement.addition.isFile <;>
    simp [hfile, lastGiven_insert hsilent]

end Effective

/-! ## The defaults -/

set_option maxRecDepth 2000 in
theorem read?_defaultText :
    Toml.read? defaultText = some (.table
      [(dumpGroup.name, .table [(dumpGroup.member, .integer 0)]),
        (jsonGroup.name, .table [(jsonGroup.member, .bool false)])]) := by
  -- the text is cheap to evaluate as a list of characters only
  have htext : defaultText = String.ofList _ ++ String.ofList _ ++ String.ofList _ ++
      String.ofList _ ++ String.ofList _ ++ String.ofList _ ++ String.ofList _ := rfl
  simp only [Toml.read?, htext, ← String.ofList_append, String.toList_ofList]
  rfl

theorem defaults_eq :
    defaults = .table none
      [(dumpGroup.name, .table none [(dumpGroup.member, .scalar none (.integer 0))]),
        (jsonGroup.name, .table none [(jsonGroup.member, .scalar none (.bool false))])] := by
  rw [defaults, read?_defaultText]
  simp only [Option.elim_some, Setting.ofToml, Setting.ofTomlEntries]

/-! ## Whole runs -/

/-- The settings hold a value for both fields. -/
def Settled (root : Setting) (level : UInt64) (pretty : Bool) : Prop :=
  Holds levelField root level ∧ Holds prettyField root pretty

theorem settled_defaults : Settled defaults 0 false := by
  rw [defaults_eq]
  exact ⟨⟨_, rfl, none, rfl⟩, ⟨_, rfl, none, rfl⟩⟩

theorem Group.read_of_entry {α : Type} {group : Group α} {root table setting : Setting}
    (hfound : root.entry? group.name = some table)
    (hheld : table.entry? group.member = some setting) :
    group.read root = group.take (group.name ++ "." ++ group.member) setting := by
  cases table with
  | table origin entries =>
      have hlookup : entries.lookup group.member = some setting := hheld
      simp only [Group.read, hfound, hlookup]
  | scalar => cases hheld
  | array => cases hheld

theorem Settled.decode {root : Setting} {level : UInt64} {pretty : Bool}
    (hsettled : Settled root level pretty) : decode root = .ok ⟨level, pretty⟩ := by
  obtain ⟨⟨dump, hdump, dumpOrigin, hlevel⟩, ⟨json, hjson, jsonOrigin, hpretty⟩⟩ :=
    hsettled
  have hlevelRead : dumpGroup.read root = .ok level.toNat := by
    rw [Group.read_of_entry hdump hlevel]
    rfl
  have hprettyRead : jsonGroup.read root = .ok pretty := by
    rw [Group.read_of_entry hjson hpretty]
    rfl
  rw [Config.decode, hlevelRead, hprettyRead]
  simp [bind, Except.bind, pure, Except.pure]

theorem Settled.addLayer {read : String → Option String} {statement : Statement}
    (hholds : statement.Holds read) {layer : Layer}
    (hlayer : statement.addition.layer? = some layer)
    {root : Setting} {level : UInt64} {pretty : Bool} (hsettled : Settled root level pretty) :
    ∃ root', addLayer read root layer = .ok root' ∧
      Settled root' (statement.level?.getD level) (statement.pretty?.getD pretty) := by
  cases hholds with
  | missing hnone =>
      cases hlayer
      exact ⟨root, by simp [Config.addLayer, hnone], hsettled⟩
  | @found name required found text entries level? pretty? hlocate hparse hlevel hpretty =>
      cases hlayer
      have hadd : Config.addLayer read root ⟨name, required⟩ =
          .ok ((Setting.ofTomlEntries (some (originOf found)) entries).foldl
            (fun root (name, setting) => putEntry root name setting) root) := by
        simp [Config.addLayer, hlocate, hparse, Setting.ofToml]
      exact ⟨_, hadd, hlevel.putEntries _ hsettled.1, hpretty.putEntries _ hsettled.2⟩
  | level => cases hlayer
  | pretty => cases hlayer

theorem Settled.place {read : String → Option String} {statement : Statement}
    (hholds : statement.Holds read) {path : Path} {value : Scalar}
    (hoverride : statement.addition.override? = some (path, value))
    {root : Setting} {level : UInt64} {pretty : Bool} (hsettled : Settled root level pretty) :
    Settled (path.place (.scalar none value) root)
      (statement.level?.getD level) (statement.pretty?.getD pretty) := by
  have hdiffer : levelField.group ≠ prettyField.group := by decide
  cases hholds with
  | missing => cases hoverride
  | found => cases hoverride
  | @level key level hkey =>
      obtain ⟨path', hparse, hgives, hsilent⟩ := levelField.givesAt_key hkey level
      simp only [Addition.override?, hparse, Option.map_some, Option.some.injEq,
        Prod.mk.injEq] at hoverride
      obtain ⟨rfl, rfl⟩ := hoverride
      rw [← levelField.ofToml_toml]
      exact ⟨hgives.place none hsettled.1, (hsilent prettyField hdiffer).place none hsettled.2⟩
  | @pretty key pretty hkey =>
      obtain ⟨path', hparse, hgives, hsilent⟩ := prettyField.givesAt_key hkey pretty
      simp only [Addition.override?, hparse, Option.map_some, Option.some.injEq,
        Prod.mk.injEq] at hoverride
      obtain ⟨rfl, rfl⟩ := hoverride
      rw [← prettyField.ofToml_toml]
      exact ⟨(hsilent levelField hdiffer.symm).place none hsettled.1,
        hgives.place none hsettled.2⟩

theorem Settled.foldlM_addLayer {read : String → Option String} {statements : List Statement}
    (hholds : ∀ statement ∈ statements, statement.Holds read)
    {root : Setting} {level : UInt64} {pretty : Bool} (hsettled : Settled root level pretty) :
    ∃ root', ((statements.map Statement.addition).filterMap Addition.layer?).foldlM
        (Config.addLayer read) root = .ok root' ∧
      Settled root'
        ((lastGiven Statement.level? (statements.filter (·.addition.isFile))).getD level)
        ((lastGiven Statement.pretty? (statements.filter (·.addition.isFile))).getD pretty) := by
  induction statements generalizing root level pretty with
  | nil => exact ⟨root, rfl, hsettled⟩
  | cons statement rest ih =>
      have hrest : ∀ statement ∈ rest, statement.Holds read :=
        fun statement hmem => hholds statement (.tail _ hmem)
      cases haddition : statement.addition with
      | file name required =>
          have hlayer : statement.addition.layer? = some ⟨name, required⟩ := by rw [haddition]; rfl
          obtain ⟨middle, hadd, hmiddle⟩ := hsettled.addLayer (hholds statement (.head _)) hlayer
          obtain ⟨last, hrun, hlast⟩ := ih hrest hmiddle
          refine ⟨last, ?_, ?_⟩
          · rw [List.map_cons, List.filterMap_cons_some hlayer, List.foldlM_cons, hadd]
            exact hrun
          · rw [List.filter_cons_of_pos (by rw [haddition]; rfl), lastGiven_cons, lastGiven_cons,
              Option.getD_or, Option.getD_or]
            exact hlast
      | override key value =>
          obtain ⟨last, hrun, hlast⟩ := ih hrest hsettled
          refine ⟨last, ?_, ?_⟩
          · rw [List.map_cons, List.filterMap_cons_none (by rw [haddition]; rfl)]
            exact hrun
          · rw [List.filter_cons_of_neg (by rw [haddition]; exact Bool.false_ne_true)]
            exact hlast

theorem Settled.foldl_place {read : String → Option String} {statements : List Statement}
    (hholds : ∀ statement ∈ statements, statement.Holds read)
    {root : Setting} {level : UInt64} {pretty : Bool} (hsettled : Settled root level pretty) :
    Settled (((statements.map Statement.addition).filterMap Addition.override?).foldl
        (fun root (path, value) => Path.place (.scalar none value) path root) root)
      ((lastGiven Statement.level? (statements.filter (!·.addition.isFile))).getD level)
      ((lastGiven Statement.pretty? (statements.filter (!·.addition.isFile))).getD pretty) := by
  induction statements generalizing root level pretty with
  | nil => exact hsettled
  | cons statement rest ih =>
      have hrest : ∀ statement ∈ rest, statement.Holds read :=
        fun statement hmem => hholds statement (.tail _ hmem)
      cases haddition : statement.addition with
      | file name required =>
          rw [List.map_cons, List.filterMap_cons_none (by rw [haddition]; rfl),
            List.filter_cons_of_neg (by rw [haddition]; exact Bool.false_ne_true)]
          exact ih hrest hsettled
      | override key value =>
          obtain ⟨path, hparse⟩ : ∃ path, Path.parse? key = some path :=
            keysParse_of_holds hholds key value (by simp [haddition])
          have hoverride : statement.addition.override? = some (path, value) := by
            rw [haddition, Addition.override?, hparse]
            rfl
          have hnext := hsettled.place (hholds statement (.head _)) hoverride
          rw [List.map_cons, List.filterMap_cons_some hoverride, List.foldl_cons,
            List.filter_cons_of_pos (by rw [haddition]; rfl), lastGiven_cons, lastGiven_cons,
            Option.getD_or, Option.getD_or]
          exact ih hrest hnext

theorem load_of_holds {read : String → Option String} {statements : List Statement}
    (hholds : ∀ statement ∈ statements, statement.Holds read) :
    load read (statements.map Statement.addition) =
      some (.ok ⟨effective Statement.level? 0 statements,
        effective Statement.pretty? false statements⟩) := by
  obtain ⟨root, hrun, hfiles⟩ := settled_defaults.foldlM_addLayer hholds
  have hsettled := (hfiles.foldl_place hholds).decode
  rw [← Option.getD_or, ← Option.getD_or] at hsettled
  rw [load_eq_build (keysParse_of_holds hholds), Loader.build, hrun]
  exact congrArg some hsettled

/-- Additions that make valid statements always give a configuration.  Each of
its fields has the value of the last single setting of it, else that of the last
file that sets it, else the default.  How files and single settings interleave
does not matter, and an addition that is silent about a field can be left out
without a change to that field. -/
theorem layered_config (read : String → Option String) (statements : List Statement)
    (hholds : ∀ statement ∈ statements, statement.Holds read) :
    load read (statements.map Statement.addition) =
        some (.ok ⟨effective Statement.level? 0 statements,
          effective Statement.pretty? false statements⟩) ∧
      (∀ others : List Addition,
        others.filter Addition.isFile =
          (statements.map Statement.addition).filter Addition.isFile →
        others.filter (!·.isFile) =
          (statements.map Statement.addition).filter (!·.isFile) →
        load read others = load read (statements.map Statement.addition)) ∧
      ∀ before statement after, statements = before ++ statement :: after →
        ∃ config,
          load read ((before ++ after).map Statement.addition) = some (.ok config) ∧
          (statement.level? = none →
            config.initialLevel = effective Statement.level? 0 statements) ∧
          (statement.pretty? = none →
            config.pretty = effective Statement.pretty? false statements) := by
  refine ⟨load_of_holds hholds, ?_, ?_⟩
  · intro others hfiles hoverrides
    exact load_congr (keysParse_of_holds hholds) hfiles hoverrides read
  · rintro before statement after rfl
    have hfewer : ∀ statement ∈ before ++ after, statement.Holds read := by
      intro other hmem
      apply hholds
      simp only [List.mem_append, List.mem_cons] at hmem ⊢
      tauto
    refine ⟨_, load_of_holds hfewer, ?_, ?_⟩
    · intro hsilent
      exact (effective_insert hsilent 0 before after).symm
    · intro hsilent
      exact (effective_insert hsilent false before after).symm

/-- Two files: the first sets the level, the second the form of JSON. -/
def twoFiles (name : String) : Option String :=
  if name = "base.toml" then some "dump.initial_level = 7\n"
  else if name = "user.toml" then some "[JSON]\npretty = true\n"
  else none

def twoFilesStatements : List Statement :=
  [⟨.file "base.toml" true, some 7, none⟩,
    ⟨.override "dump.initial_level" (levelField.scalar 4), some 4, none⟩,
    ⟨.file "absent.toml" false, none, none⟩,
    ⟨.file "user.toml" false, none, some true⟩]

theorem layered_config_twoFiles :
    load twoFiles (twoFilesStatements.map Statement.addition) = some (.ok ⟨4, true⟩) := by
  refine (layered_config twoFiles twoFilesStatements ?_).1
  have hbase : Toml.read? (contentOf "dump.initial_level = 7\n") =
      some (.table [("dump", .table [("initial_level", levelField.toml 7)])]) := by cbv
  have huser : Toml.read? (contentOf "[JSON]\npretty = true\n") =
      some (.table [("JSON", .table [("pretty", prettyField.toml true)])]) := by cbv
  have hdumpPath : entryPath "dump" = [.entry "dump"] := by decide +kernel
  have hjsonPath : entryPath "JSON" = [.entry "JSON"] := by decide +kernel
  have hlevel : GivesAt levelField (entryPath "dump")
      (.table [("initial_level", levelField.toml 7)]) (some 7) :=
    hdumpPath ▸ .group (by decide +kernel) (.cons (.member (by decide +kernel)) .nil)
  have hnoLevel : GivesAt levelField (entryPath "JSON")
      (.table [("pretty", prettyField.toml true)]) none :=
    hjsonPath ▸ .elsewhere (by decide +kernel)
  have hpretty : GivesAt prettyField (entryPath "JSON")
      (.table [("pretty", prettyField.toml true)]) (some true) :=
    hjsonPath ▸ .group (by decide +kernel) (.cons (.member (by decide +kernel)) .nil)
  have hnoPretty : GivesAt prettyField (entryPath "dump")
      (.table [("initial_level", levelField.toml 7)]) none :=
    hdumpPath ▸ .elsewhere (by decide +kernel)
  have hkey : levelField.IsKey "dump.initial_level" :=
    ⟨"dump", "initial_level", by decide +kernel, by decide +kernel, by decide +kernel⟩
  intro statement hmem
  simp only [twoFilesStatements, List.mem_cons, List.not_mem_nil, or_false] at hmem
  rcases hmem with rfl | rfl | rfl | rfl
  · have hlocate : locate? twoFiles "base.toml" =
        some ("base.toml", "dump.initial_level = 7\n") := by decide +kernel
    exact .found hlocate hbase (.cons hlevel .nil) (.cons hnoPretty .nil)
  · exact .level hkey
  · exact .missing (by decide +kernel)
  · have hlocate : locate? twoFiles "user.toml" =
        some ("user.toml", "[JSON]\npretty = true\n") := by decide +kernel
    exact .found hlocate huser (.cons hnoLevel .nil) (.cons hpretty .nil)

end Config
end SyntaxDump

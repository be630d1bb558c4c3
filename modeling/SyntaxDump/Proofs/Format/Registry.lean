import Mathlib.Tactic
import SyntaxDump.Format.Registry

/-!
# Runs of registrations

Whatever is registered in whatever order, the registry holds under each name
the format that was registered last, and it lists the names in the order of
their bytes.  All other operations read the same list, so a format that has
been replaced is gone from every view at once.

Detection takes the first format that lists an extension.  What is said about
it holds for every order in which the formats might be looked at.
-/

namespace SyntaxDump

/-! ## The order of bytes -/

/-- The bytes of a text. -/
def utf8Bytes (text : String) : List UInt8 := text.toUTF8.data.toList

theorem utf8Bytes_eq_flatMap (text : String) :
    utf8Bytes text = text.toList.flatMap String.utf8EncodeChar := by
  have hbytes : text.toUTF8 = text.toList.utf8Encode := by
    rw [String.toUTF8, ← String.toByteArray_ofList, String.ofList_toList]
  rw [utf8Bytes, hbytes, List.utf8Encode, List.data_toByteArray]

theorem div_lt_or_mod_lt {m n : Nat} (hlt : m < n) :
    m / 64 < n / 64 ∨ m / 64 = n / 64 ∧ m % 64 < n % 64 := by
  omega

/-- The six-bit digits of a smaller number are smaller at the first place where
they differ. -/
theorem sixBitDigits_lt {m n : Nat} (hlt : m < n) :
    m / 262144 < n / 262144 ∨ m / 262144 = n / 262144 ∧
      (m / 4096 % 64 < n / 4096 % 64 ∨ m / 4096 % 64 = n / 4096 % 64 ∧
        (m / 64 % 64 < n / 64 % 64 ∨ m / 64 % 64 = n / 64 % 64 ∧ m % 64 < n % 64)) := by
  have hdiv : ∀ k, k / 4096 = k / 64 / 64 ∧ k / 262144 = k / 64 / 64 / 64 := by
    intro k
    rw [Nat.div_div_eq_div_mul, Nat.div_div_eq_div_mul]
    exact ⟨rfl, rfl⟩
  rw [(hdiv m).1, (hdiv m).2, (hdiv n).1, (hdiv n).2]
  rcases div_lt_or_mod_lt hlt with hfirst | ⟨heq, hdigit⟩
  · rcases div_lt_or_mod_lt hfirst with hsecond | ⟨heq, hdigit⟩
    · rcases div_lt_or_mod_lt hsecond with hthird | ⟨heq, hdigit⟩
      · exact .inl hthird
      · exact .inr ⟨heq, .inl hdigit⟩
    · rw [heq]
      exact .inr ⟨rfl, .inr ⟨rfl, .inl hdigit⟩⟩
  · rw [heq]
    exact .inr ⟨rfl, .inr ⟨rfl, .inr ⟨rfl, hdigit⟩⟩⟩

theorem utf8EncodeChar_append_lt {c d : Char} (hlt : c < d) (front back : List UInt8) :
    String.utf8EncodeChar c ++ front < String.utf8EncodeChar d ++ back := by
  have hval : c.val.toNat < d.val.toNat := hlt
  have hmax : d.val.toNat < 0x110000 := by
    rcases d.valid with hlow | ⟨-, hhigh⟩
    · exact lt_trans (show d.val.toNat < 0xd800 from hlow) (by decide)
    · exact hhigh
  simp only [String.utf8EncodeChar]
  generalize c.val.toNat = m at *
  generalize d.val.toNat = n at *
  have hdigits := sixBitDigits_lt hval
  have hm : m / 262144 % 8 = m / 262144 := Nat.mod_eq_of_lt (by omega)
  have hn : n / 262144 % 8 = n / 262144 := Nat.mod_eq_of_lt (by omega)
  rw [hm, hn]
  -- the number of bytes of each character decides which of its digits are compared
  split_ifs <;>
    simp (disch := omega) only [List.cons_append, List.nil_append, List.cons_lt_cons_iff,
      UInt8.lt_iff_toNat_lt, ← UInt8.toNat_inj, UInt8.toNat_ofNat', Nat.mod_eq_of_lt,
      Nat.add_lt_add_iff_right, Nat.add_right_cancel_iff] <;>
    omega

theorem utf8EncodeChar_ne_nil (c : Char) : String.utf8EncodeChar c ≠ [] := by
  simp only [String.utf8EncodeChar]
  split_ifs <;> simp

theorem append_lt_append_left (front : List UInt8) {back back' : List UInt8}
    (hlt : back < back') : front ++ back < front ++ back' := by
  induction front with
  | nil => exact hlt
  | cons byte front ih => exact List.cons_lt_cons_iff.mpr (.inr ⟨rfl, ih⟩)

/-- The order of texts is that of their bytes. -/
theorem utf8Bytes_lt {a b : String} (hlt : a < b) : utf8Bytes a < utf8Bytes b := by
  rw [utf8Bytes_eq_flatMap, utf8Bytes_eq_flatMap]
  have hchars : a.toList < b.toList := hlt
  generalize a.toList = cs at hchars
  generalize b.toList = ds at hchars
  induction cs generalizing ds with
  | nil =>
      cases ds with
      | nil => exact absurd hchars (List.not_lt_nil _)
      | cons d ds =>
          obtain ⟨byte, bytes, hcons⟩ := List.exists_cons_of_ne_nil (utf8EncodeChar_ne_nil d)
          rw [List.flatMap_cons, hcons]
          exact List.nil_lt_cons _ _
  | cons c cs ih =>
      cases ds with
      | nil => exact absurd hchars (List.not_lt_nil _)
      | cons d ds =>
          rw [List.flatMap_cons, List.flatMap_cons]
          rcases List.cons_lt_cons_iff.mp hchars with hhead | ⟨rfl, htail⟩
          · exact utf8EncodeChar_append_lt hhead _ _
          · exact append_lt_append_left _ (ih ds htail)

namespace Registry

/-! ## One registration -/

def SortedByName (formats : List Format) : Prop :=
  formats.Pairwise fun first second => first.name < second.name

theorem lt_of_not_lt {a b : String} (hlt : ¬ a < b) (hne : a ≠ b) : b < a := by
  by_contra hother
  exact hne (String.le_antisymm (String.not_lt.mp hother) (String.not_lt.mp hlt))

theorem mem_insertSorted {format other : Format} {formats : List Format}
    (hformats : SortedByName formats) :
    other ∈ insertSorted format formats ↔
      other = format ∨ other ∈ formats ∧ other.name ≠ format.name := by
  induction formats with
  | nil => simp [insertSorted]
  | cons first formats ih =>
      obtain ⟨hfirst, htail⟩ := List.pairwise_cons.mp hformats
      rw [insertSorted]
      split_ifs with hless hsame
      · -- all names behind the new one are greater
        have hgreater : ∀ known ∈ first :: formats, known.name ≠ format.name := by
          intro known hmem
          rcases List.mem_cons.mp hmem with rfl | hmem
          · exact (String.ne_of_lt hless).symm
          · exact (String.ne_of_lt (String.lt_trans hless (hfirst known hmem))).symm
        rw [List.mem_cons]
        exact or_congr Iff.rfl ⟨fun hmem => ⟨hmem, hgreater other hmem⟩, And.left⟩
      · have hgreater : ∀ known ∈ formats, known.name ≠ format.name := by
          intro known hmem
          rw [hsame]
          exact (String.ne_of_lt (hfirst known hmem)).symm
        rw [List.mem_cons, List.mem_cons]
        refine or_congr Iff.rfl ⟨fun hmem => ⟨.inr hmem, hgreater other hmem⟩, ?_⟩
        rintro ⟨rfl | hmem, hname⟩
        · exact absurd hsame.symm hname
        · exact hmem
      · rw [List.mem_cons, ih htail, List.mem_cons]
        constructor
        · rintro (rfl | rfl | ⟨hmem, hname⟩)
          · exact .inr ⟨.inl rfl, Ne.symm hsame⟩
          · exact .inl rfl
          · exact .inr ⟨.inr hmem, hname⟩
        · rintro (rfl | ⟨rfl | hmem, hname⟩)
          · exact .inr (.inl rfl)
          · exact .inl rfl
          · exact .inr (.inr ⟨hmem, hname⟩)

theorem sortedByName_insertSorted (format : Format) {formats : List Format}
    (hformats : SortedByName formats) : SortedByName (insertSorted format formats) := by
  induction formats with
  | nil => simp [insertSorted, SortedByName]
  | cons first formats ih =>
      obtain ⟨hfirst, htail⟩ := List.pairwise_cons.mp hformats
      rw [insertSorted]
      split_ifs with hless hsame
      · refine List.pairwise_cons.mpr ⟨?_, hformats⟩
        intro known hmem
        rcases List.mem_cons.mp hmem with rfl | hmem
        · exact hless
        · exact String.lt_trans hless (hfirst known hmem)
      · refine List.pairwise_cons.mpr ⟨?_, htail⟩
        intro known hmem
        rw [hsame]
        exact hfirst known hmem
      · refine List.pairwise_cons.mpr ⟨?_, ih htail⟩
        intro known hmem
        rcases (mem_insertSorted htail).mp hmem with rfl | ⟨hmem, -⟩
        · exact lt_of_not_lt hless hsame
        · exact hfirst known hmem

/-- A registration is seen under its own name and under no other. -/
theorem find?_register (registry : Registry) (format : Format) (name : String) :
    (registry.register format).find? name =
      if format.name = name then some format else registry.find? name := by
  obtain ⟨formats⟩ := registry
  simp only [register, find?]
  induction formats with
  | nil => by_cases hname : format.name = name <;> simp [insertSorted, hname]
  | cons first formats ih =>
      by_cases hname : format.name = name
      · simp only [hname, if_true] at ih ⊢
        rw [insertSorted]
        split_ifs with hless hsame
        · simp [hname]
        · simp [hname]
        · have hother : first.name ≠ name := by
            rw [← hname]
            exact Ne.symm hsame
          simpa [hother] using ih
      · simp only [hname, if_false] at ih ⊢
        rw [insertSorted]
        split_ifs with hless hsame
        · simp [hname]
        · have hother : first.name ≠ name := by
            rw [← hsame]
            exact hname
          simp [hname, hother]
        · simp only [List.find?_cons, ih]

/-! ## Runs -/

/-- `Reached registry history` says that the registry comes from an empty or a
standard one by registrations, and that these, with those of the standard
formats, are the history. -/
inductive Reached : Registry → List Format → Prop
  | empty : Reached .empty []
  | standard : Reached .standard [tagFormat 0, jsonFormat false]
  | register {registry : Registry} {history : List Format} (hreached : Reached registry history)
      (format : Format) : Reached (registry.register format) (history ++ [format])

/-- The format that was registered last under a name. -/
def lastNamed (history : List Format) (name : String) : Option Format :=
  (history.filter fun format => format.name = name).getLast?

theorem lastNamed_append_singleton (history : List Format) (format : Format) (name : String) :
    lastNamed (history ++ [format]) name =
      if format.name = name then some format else lastNamed history name := by
  by_cases hname : format.name = name <;> simp [lastNamed, hname]

theorem lastNamed_isSome_iff {history : List Format} {name : String} :
    (lastNamed history name).isSome ↔ name ∈ history.map Format.name := by
  simp [lastNamed]

theorem name_of_lastNamed {history : List Format} {name : String} {format : Format}
    (hlast : lastNamed history name = some format) : format.name = name := by
  simpa using List.of_mem_filter (List.mem_of_getLast? hlast)

theorem mem_of_lastNamed {history : List Format} {name : String} {format : Format}
    (hlast : lastNamed history name = some format) : format ∈ history :=
  List.mem_of_mem_filter (List.mem_of_getLast? hlast)

/-- The registry is sorted and has under each name what the history says. -/
structure Reflects (registry : Registry) (history : List Format) : Prop where
  sorted : SortedByName registry.formats
  find : ∀ name, registry.find? name = lastNamed history name

theorem reflects_empty : Reflects empty [] := ⟨List.Pairwise.nil, fun _ => rfl⟩

theorem Reflects.register {registry : Registry} {history : List Format}
    (hreflects : Reflects registry history) (format : Format) :
    Reflects (registry.register format) (history ++ [format]) := by
  refine ⟨sortedByName_insertSorted format hreflects.sorted, fun name => ?_⟩
  rw [find?_register, lastNamed_append_singleton, hreflects.find]

theorem Reached.reflects {registry : Registry} {history : List Format}
    (hreached : Reached registry history) : Reflects registry history := by
  induction hreached with
  | empty => exact reflects_empty
  | standard => exact (reflects_empty.register (tagFormat 0)).register (jsonFormat false)
  | register _ format ih => exact ih.register format

/-! ## What the registry holds -/

/-- Is this the format that the registry gives for the name of it? -/
def Holds (registry : Registry) (format : Format) : Prop :=
  registry.get format.name = .ok format

theorem get_eq_ok_iff {registry : Registry} {name : String} {format : Format} :
    registry.get name = .ok format ↔ registry.find? name = some format := by
  unfold get
  cases registry.find? name <;> simp

theorem mem_formats_iff_find? {formats : List Format} (hformats : SortedByName formats)
    {format : Format} :
    format ∈ formats ↔ formats.find? (·.name == format.name) = some format := by
  constructor
  · intro hmem
    induction formats with
    | nil => simp at hmem
    | cons first formats ih =>
        obtain ⟨hfirst, htail⟩ := List.pairwise_cons.mp hformats
        rcases List.mem_cons.mp hmem with rfl | hmem
        · simp
        · have hname : first.name ≠ format.name := String.ne_of_lt (hfirst format hmem)
          simpa [hname] using ih htail hmem
  · exact List.mem_of_find?_eq_some

theorem Reflects.mem_formats_iff {registry : Registry} {history : List Format}
    (hreflects : Reflects registry history) {format : Format} :
    format ∈ registry.formats ↔ registry.Holds format := by
  rw [Holds, get_eq_ok_iff]
  exact mem_formats_iff_find? hreflects.sorted

theorem has_iff_mem_names {registry : Registry} {name : String} :
    registry.has name = true ↔ name ∈ registry.names := by
  simp [has, names, find?]

theorem exists_get_iff_has {registry : Registry} {name : String} :
    (∃ format, registry.get name = .ok format) ↔ registry.has name = true := by
  simp [get_eq_ok_iff, has, Option.isSome_iff_exists]

theorem Reflects.mem_names_iff {registry : Registry} {history : List Format}
    (hreflects : Reflects registry history) {name : String} :
    name ∈ registry.names ↔ name ∈ history.map Format.name := by
  rw [← has_iff_mem_names, has, hreflects.find, lastNamed_isSome_iff]

theorem Reflects.pairwise_names {registry : Registry} {history : List Format}
    (hreflects : Reflects registry history) :
    registry.names.Pairwise fun a b => utf8Bytes a < utf8Bytes b := by
  refine List.pairwise_map.mpr (hreflects.sorted.imp ?_)
  intro first second hlt
  exact utf8Bytes_lt hlt

/-! ## Detection -/

/-- Does the format list the extension of the file? -/
def Lists (format : Format) (fileName : String) : Prop :=
  ∃ extension ∈ FileName.extension? fileName, extension ∈ format.extensions

/-- The name of the first format that lists the extension of a file, if formats
are looked at in the given order. -/
def firstListing (order : List Format) (fileName : String) : Option String := do
  let extension ← FileName.extension? fileName
  let format ← order.find? fun format => format.extensions.contains extension
  return format.name

theorem detect?_eq_firstListing (registry : Registry) (fileName : String) :
    registry.detect? fileName = firstListing registry.formats fileName := rfl

/-- The result tells which format the registry holds for a file. -/
structure Detects (registry : Registry) (fileName : String) (result : Option String) : Prop where
  eq_none_iff : result = none ↔ FileName.extension? fileName = none ∨
    ∀ format, registry.Holds format → ¬ Lists format fileName
  listed : ∀ name, result = some name →
    ∃ format, registry.Holds format ∧ format.name = name ∧ Lists format fileName
  determined : ∀ format, registry.Holds format → Lists format fileName →
    (∀ other, registry.Holds other → Lists other fileName → other = format) →
      result = some format.name

theorem firstListing_eq_some {order : List Format} {fileName name : String}
    (hfirst : firstListing order fileName = some name) :
    ∃ format ∈ order, format.name = name ∧ Lists format fileName := by
  simp only [firstListing, Option.bind_eq_bind, Option.bind_eq_some_iff] at hfirst
  obtain ⟨extension, hextension, format, hfind, hname⟩ := hfirst
  refine ⟨format, List.mem_of_find?_eq_some hfind, Option.some.inj hname, extension, hextension, ?_⟩
  simpa using List.find?_some hfind

theorem firstListing_eq_none {order : List Format} {fileName : String}
    (hnone : firstListing order fileName = none) :
    ∀ format ∈ order, ¬ Lists format fileName := by
  rintro format hmem ⟨extension, hextension, hlisted⟩
  rw [Option.mem_def] at hextension
  rw [firstListing, hextension] at hnone
  cases hfind : order.find? fun format => format.extensions.contains extension with
  | none =>
      have hall := List.find?_eq_none.mp hfind format hmem
      exact hall (by simpa using hlisted)
  | some found =>
      rw [Option.bind_eq_bind, Option.bind_some, hfind] at hnone
      cases hnone

/-- It does not matter in which order the formats are looked at. -/
theorem detects_firstListing {registry : Registry} {order : List Format}
    (horder : ∀ format, format ∈ order ↔ registry.Holds format) (fileName : String) :
    Detects registry fileName (firstListing order fileName) := by
  refine ⟨⟨?_, ?_⟩, ?_, ?_⟩
  · intro hnone
    right
    intro format hholds
    exact firstListing_eq_none hnone format ((horder format).mpr hholds)
  · intro hnothing
    cases hfirst : firstListing order fileName with
    | none => rfl
    | some name =>
        obtain ⟨format, hmem, -, hlists⟩ := firstListing_eq_some hfirst
        rcases hnothing with hextension | hunlisted
        · obtain ⟨extension, hmem, -⟩ := hlists
          rw [hextension] at hmem
          cases hmem
        · exact absurd hlists (hunlisted format ((horder format).mp hmem))
  · intro name hfirst
    obtain ⟨format, hmem, hname, hlists⟩ := firstListing_eq_some hfirst
    exact ⟨format, (horder format).mp hmem, hname, hlists⟩
  · intro format hholds hlists honly
    cases hfirst : firstListing order fileName with
    | none =>
        exact absurd hlists (firstListing_eq_none hfirst format ((horder format).mpr hholds))
    | some name =>
        obtain ⟨other, hmem, rfl, hother⟩ := firstListing_eq_some hfirst
        rw [honly other ((horder other).mp hmem) hother]

/-! ## The order of registrations -/

/-- Two registries that cannot be told apart by names. -/
structure Agrees (first second : Registry) : Prop where
  names : first.names = second.names
  has : ∀ name, first.has name = second.has name
  get : ∀ name, first.get name = second.get name
  parse : ∀ source name, first.parse source name = second.parse source name
  serializeWith : ∀ root name options,
    first.serializeWith root name options = second.serializeWith root name options

theorem sorted_names_unique {names others : List String}
    (hnames : names.Pairwise (· < ·)) (hothers : others.Pairwise (· < ·))
    (hmem : ∀ name, name ∈ names ↔ name ∈ others) : names = others := by
  have hperm : names.Perm others := by
    refine (List.perm_ext_iff_of_nodup ?_ ?_).mpr hmem
    · exact hnames.imp String.ne_of_lt
    · exact hothers.imp String.ne_of_lt
  refine hperm.eq_of_pairwise ?_ hnames hothers
  intro first second _ _ hlt hgt
  exact absurd hgt (String.lt_asymm hlt)

theorem Reflects.agrees {first second : Registry} {history history' : List Format}
    (hfirst : Reflects first history) (hsecond : Reflects second history')
    (hlast : ∀ name, lastNamed history name = lastNamed history' name) : Agrees first second := by
  have hfind : ∀ name, first.find? name = second.find? name := by
    intro name
    rw [hfirst.find, hsecond.find, hlast]
  have hget : ∀ name, first.get name = second.get name := by
    intro name
    rw [get, get, hfind]
  have hhas : ∀ name, first.has name = second.has name := by
    intro name
    rw [Registry.has, Registry.has, hfind]
  refine ⟨?_, hhas, hget, ?_, ?_⟩
  · refine sorted_names_unique (List.pairwise_map.mpr hfirst.sorted)
      (List.pairwise_map.mpr hsecond.sorted) fun name => ?_
    exact has_iff_mem_names.symm.trans ((hhas name) ▸ has_iff_mem_names)
  · intro source name
    rw [Registry.parse, Registry.parse, hget]
  · intro root name options
    rw [Registry.serializeWith, Registry.serializeWith, hget]

theorem lastNamed_swap {history : List Format} {a b : Format} (hne : a.name ≠ b.name)
    (name : String) :
    lastNamed (history ++ [a] ++ [b]) name = lastNamed (history ++ [b] ++ [a]) name := by
  simp only [lastNamed_append_singleton]
  by_cases ha : a.name = name
  · rw [if_pos ha, if_neg fun hb => hne (ha.trans hb.symm), if_pos ha]
  · rw [if_neg ha, if_neg ha]

/-- Whatever has been registered, the names stand in the order of their bytes
and are those of the history; all ways to look for a format agree and give the
last one of its name; a file is detected by its extension among the formats
that are held, in whatever order these are looked at; and two registrations
with different names can be exchanged. -/
theorem reached_invariant (registry : Registry) (history : List Format)
    (hreached : Reached registry history) :
    (registry.names.Pairwise fun a b => utf8Bytes a < utf8Bytes b) ∧
    (∀ name, name ∈ registry.names ↔ name ∈ history.map Format.name) ∧
    (∀ name, registry.has name = true ↔ name ∈ registry.names) ∧
    (∀ name, (∃ format, registry.get name = .ok format) ↔ name ∈ registry.names) ∧
    (∀ name format, registry.get name = .ok format ↔ lastNamed history name = some format) ∧
    (∀ name format, registry.get name = .ok format → format.name = name) ∧
    (∀ fileName, Detects registry fileName (registry.detect? fileName)) ∧
    (∀ order, (∀ format, format ∈ order ↔ registry.Holds format) →
      ∀ fileName, Detects registry fileName (firstListing order fileName)) ∧
    (∀ fileName, (∀ format ∈ history, Lists format fileName → ¬ registry.Holds format) →
      registry.detect? fileName = none) ∧
    ∀ a b : Format, a.name ≠ b.name →
      Agrees ((registry.register a).register b) ((registry.register b).register a) := by
  have hreflects := hreached.reflects
  have hget : ∀ name format,
      registry.get name = .ok format ↔ lastNamed history name = some format := by
    intro name format
    rw [get_eq_ok_iff, hreflects.find]
  have hdetects : ∀ fileName, Detects registry fileName (registry.detect? fileName) := by
    intro fileName
    rw [detect?_eq_firstListing]
    exact detects_firstListing (fun format => hreflects.mem_formats_iff) fileName
  refine ⟨hreflects.pairwise_names, fun name => hreflects.mem_names_iff,
    fun name => has_iff_mem_names, fun name => exists_get_iff_has.trans has_iff_mem_names, hget,
    ?_, hdetects, fun order => detects_firstListing, ?_, ?_⟩
  · intro name format hok
    exact name_of_lastNamed ((hget name format).mp hok)
  · intro fileName hreplaced
    refine (hdetects fileName).eq_none_iff.mpr (.inr ?_)
    intro format hholds hlists
    have hmem : format ∈ history := mem_of_lastNamed ((hget _ _).mp hholds)
    exact hreplaced format hmem hlists hholds
  · intro a b hne
    exact ((hreflects.register a).register b).agrees ((hreflects.register b).register a)
      (lastNamed_swap hne)

/-- With the tag format replaced by one that lists nothing, its extensions are
no longer known. -/
theorem reached_invariant_replacedTag :
    Reached (standard.register { name := "tag" })
        ([tagFormat 0, jsonFormat false] ++ [{ name := "tag" }]) ∧
      (standard.register { name := "tag" }).detect? "out.xml" = none := by
  have hreached : Reached (standard.register { name := "tag" })
      ([tagFormat 0, jsonFormat false] ++ [{ name := "tag" }]) := .register .standard _
  obtain ⟨-, -, -, -, hget, -, -, -, hgone, -⟩ := reached_invariant _ _ hreached
  refine ⟨hreached, hgone "out.xml" ?_⟩
  intro format hmem hlists hholds
  have hextension : FileName.extension? "out.xml" = some "xml" := by decide
  obtain ⟨extension, hmem', hlisted⟩ := hlists
  rw [hextension, Option.mem_some_iff] at hmem'
  subst hmem'
  simp only [List.cons_append, List.nil_append, List.mem_cons, List.not_mem_nil, or_false] at hmem
  rcases hmem with rfl | rfl | rfl
  · have hlast := (hget "tag" (tagFormat 0)).mp hholds
    have hdescription := congrArg Format.description (Option.some.inj hlast)
    exact absurd hdescription (by decide)
  · exact absurd hlisted (by decide)
  · exact absurd hlisted (by decide)

end Registry
end SyntaxDump

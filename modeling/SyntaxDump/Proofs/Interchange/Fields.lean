import Mathlib.Tactic
import SyntaxDump.Interchange.Decode
import SyntaxDump.Proofs.Json.Grammar

/-!
# What a record depends on

A record is decoded from the values that stand under the names of its fields,
and from nothing else: neither the order of the members nor members with other
names matter.  A field may stand once or, if it has a default, not at all.

Suppose that the values of fields may be replaced by others that are decoded to
the same result.  Then the whole record is decoded to the same result, from
members as well as from items.  This is proved for single fields and for two
records joined, so it holds for every record that is built from fields.
-/

namespace SyntaxDump
namespace Interchange

open Json (Value)

/-! ## The values under a name -/

def occurrences (name : String) (members : List (String × Value)) : List Value :=
  members.filterMap fun member => if member.1 = name then some member.2 else none

@[simp]
theorem occurrences_nil (name : String) : occurrences name [] = [] := rfl

@[simp]
theorem occurrences_cons_self (name : String) (value : Value) (members : List (String × Value)) :
    occurrences name ((name, value) :: members) = value :: occurrences name members := by
  simp [occurrences]

theorem occurrences_cons_of_ne {name other : String} (hname : other ≠ name) (value : Value)
    (members : List (String × Value)) :
    occurrences name ((other, value) :: members) = occurrences name members := by
  simp [occurrences, hname]

theorem occurrences_append (name : String) (front back : List (String × Value)) :
    occurrences name (front ++ back) = occurrences name front ++ occurrences name back :=
  List.filterMap_append

theorem occurrences_perm (name : String) {members members' : List (String × Value)}
    (hperm : members.Perm members') :
    (occurrences name members).Perm (occurrences name members') :=
  hperm.filterMap _

namespace Record

section Store

variable {σ τ α β : Type}

/-- Members with this name are skipped. -/
def Ignores (record : Record σ α) (key : String) : Prop :=
  ∀ state value, record.store state key value = .ok none

theorem Ignores.storeAll_cons {record : Record σ α} {key : String} (hkey : record.Ignores key)
    (state : σ) (value : Value) (members : List (String × Value)) :
    record.storeAll state ((key, value) :: members) = record.storeAll state members := by
  rw [storeAll, hkey]
  rfl

theorem read_members_eq_ok {record : Record σ α} {subject : String}
    {members : List (String × Value)} {a : α} :
    record.read subject (.members members) = .ok a ↔
      ∃ state, record.storeAll record.start members = .ok state ∧ record.finish state = .ok a := by
  rw [read, bind_ok_iff]

/-! ## Single fields -/

section Field

variable {name : String} {decode : Value → Decoded α} {absent : Option α}

theorem ignores_field {key : String} (hkey : key ≠ name) :
    (field name decode absent).Ignores key := by
  intro state value
  simp [field, hkey]

theorem storeAll_field_some (a : α) {members : List (String × Value)} {state : Option α} :
    (field name decode absent).storeAll (some a) members = .ok state ↔
      occurrences name members = [] ∧ state = some a := by
  induction members with
  | nil => simp [storeAll, eq_comm]
  | cons member members ih =>
      obtain ⟨key, value⟩ := member
      by_cases hkey : key = name
      · subst hkey
        simp [storeAll, field, bind, Except.bind]
      · rw [(ignores_field hkey).storeAll_cons, occurrences_cons_of_ne hkey, ih]

theorem storeAll_field {members : List (String × Value)} {state : Option α} :
    (field name decode absent).storeAll none members = .ok state ↔
      (occurrences name members = [] ∧ state = none) ∨
        ∃ value a, occurrences name members = [value] ∧ decode value = .ok a ∧
          state = some a := by
  induction members with
  | nil => simp [storeAll, eq_comm]
  | cons member members ih =>
      obtain ⟨key, value⟩ := member
      by_cases hkey : key = name
      · subst hkey
        have hstore : (field key decode absent).store none key value =
            (decode value).map fun value => some (some value) := by simp [field]
        rw [storeAll, hstore]
        cases hvalue : decode value with
        | error cause => simp [hvalue, Except.map, bind, Except.bind]
        | ok a =>
            simp only [Except.map, bind, Except.bind, storeAll_field_some, occurrences_cons_self]
            simp [hvalue]
      · rw [(ignores_field hkey).storeAll_cons, occurrences_cons_of_ne hkey, ih]

theorem read_field_eq_ok {subject : String} {members : List (String × Value)} {a : α} :
    (field name decode absent).read subject (.members members) = .ok a ↔
      (occurrences name members = [] ∧ absent = some a) ∨
        ∃ value, occurrences name members = [value] ∧ decode value = .ok a := by
  rw [read_members_eq_ok]
  constructor
  · rintro ⟨state, hstore, hfinish⟩
    rcases storeAll_field.mp hstore with ⟨hnone, rfl⟩ | ⟨value, b, hone, hvalue, rfl⟩
    · refine .inl ⟨hnone, ?_⟩
      cases absent with
      | none => cases hfinish
      | some b => cases hfinish; rfl
    · cases hfinish
      exact .inr ⟨value, hone, hvalue⟩
  · rintro (⟨hnone, rfl⟩ | ⟨value, hone, hvalue⟩)
    · exact ⟨none, storeAll_field.mpr (.inl ⟨hnone, rfl⟩), rfl⟩
    · exact ⟨some a, storeAll_field.mpr (.inr ⟨value, a, hone, hvalue, rfl⟩), rfl⟩

end Field

/-! ## Joined records -/

theorem store_and_of_first {first : Record σ α} {second : Record τ β} {key : String}
    (hfirst : first.Ignores key) (state : σ × τ) (value : Value) :
    (first.and second).store state key value =
      (second.store state.2 key value).map fun found => found.map fun next => (state.1, next) := by
  simp only [and, hfirst state.1 value, bind, Except.bind]
  cases second.store state.2 key value with
  | error cause => rfl
  | ok found => cases found <;> rfl

theorem store_and_of_second {first : Record σ α} {second : Record τ β} {key : String}
    (hsecond : second.Ignores key) (state : σ × τ) (value : Value) :
    (first.and second).store state key value =
      (first.store state.1 key value).map fun found => found.map fun next => (next, state.2) := by
  simp only [and, hsecond state.2 value, bind, Except.bind]
  cases first.store state.1 key value with
  | error cause => rfl
  | ok found => cases found <;> rfl

theorem storeAll_and {first : Record σ α} {second : Record τ β}
    (hapart : ∀ key, first.Ignores key ∨ second.Ignores key)
    {members : List (String × Value)} {start final : σ × τ} :
    (first.and second).storeAll start members = .ok final ↔
      first.storeAll start.1 members = .ok final.1 ∧
        second.storeAll start.2 members = .ok final.2 := by
  induction members generalizing start with
  | nil => simp [storeAll, Prod.ext_iff]
  | cons member members ih =>
      obtain ⟨key, value⟩ := member
      rcases hapart key with hfirst | hsecond
      · rw [hfirst.storeAll_cons, storeAll, storeAll, store_and_of_first hfirst]
        cases second.store start.2 key value with
        | error cause => simp [Except.map, bind, Except.bind]
        | ok found => cases found <;> simp [Except.map, bind, Except.bind, ih]
      · rw [hsecond.storeAll_cons, storeAll, storeAll, store_and_of_second hsecond]
        cases first.store start.1 key value with
        | error cause => simp [Except.map, bind, Except.bind]
        | ok found => cases found <;> simp [Except.map, bind, Except.bind, ih]

theorem read_and_eq_ok {first : Record σ α} {second : Record τ β}
    (hapart : ∀ key, first.Ignores key ∨ second.Ignores key) {subject : String}
    {members : List (String × Value)} {result : α × β} :
    (first.and second).read subject (.members members) = .ok result ↔
      first.read subject (.members members) = .ok result.1 ∧
        second.read subject (.members members) = .ok result.2 := by
  simp only [read_members_eq_ok]
  constructor
  · rintro ⟨final, hstore, hfinish⟩
    obtain ⟨hfirst, hsecond⟩ := (storeAll_and hapart).mp hstore
    simp only [and, bind_ok_iff] at hfinish
    obtain ⟨a, ha, b, hb, hdone⟩ := hfinish
    cases hdone
    exact ⟨⟨final.1, hfirst, ha⟩, ⟨final.2, hsecond, hb⟩⟩
  · rintro ⟨⟨left, hfirst, ha⟩, ⟨right, hsecond, hb⟩⟩
    refine ⟨(left, right), (storeAll_and hapart).mpr ⟨hfirst, hsecond⟩, ?_⟩
    simp [and, ha, hb, bind, Except.bind, pure, Except.pure]

theorem ignores_and {first : Record σ α} {second : Record τ β} {key : String}
    (hfirst : first.Ignores key) (hsecond : second.Ignores key) :
    (first.and second).Ignores key := by
  intro state value
  rw [store_and_of_first hfirst, hsecond state.2 value]
  rfl

end Store
end Record

/-! ## Tagged values -/

section Tagged

variable {κ : Type} {family : Family κ}

/-- The members beside the kind. -/
def others (members : List (String × Value)) : List (String × Value) :=
  members.filter fun member => member.1 ≠ "kind"

theorem others_cons_of_ne {name : String} (hname : name ≠ "kind") (value : Value)
    (members : List (String × Value)) :
    others ((name, value) :: members) = (name, value) :: others members := by
  simp [others, hname]

@[simp]
theorem others_cons_kind (value : Value) (members : List (String × Value)) :
    others (("kind", value) :: members) = others members := by
  simp [others]

theorem occurrences_others {name : String} (hname : name ≠ "kind")
    (members : List (String × Value)) :
    occurrences name (others members) = occurrences name members := by
  induction members with
  | nil => rfl
  | cons member members ih =>
      obtain ⟨key, value⟩ := member
      by_cases hkey : key = "kind"
      · subst hkey
        rw [others_cons_kind, occurrences_cons_of_ne (Ne.symm hname), ih]
      · rw [others_cons_of_ne hkey]
        by_cases hsame : key = name
        · subst hsame
          rw [occurrences_cons_self, occurrences_cons_self, ih]
        · rw [occurrences_cons_of_ne hsame, occurrences_cons_of_ne hsame, ih]

theorem splitMembers_cons_of_ne {name : String} (hname : name ≠ "kind") (kind : Option κ)
    (value : Value) (members : List (String × Value)) :
    family.splitMembers kind ((name, value) :: members) =
      (family.splitMembers kind members).map fun result =>
        (result.1, (name, value) :: result.2) := by
  rw [Family.splitMembers, if_neg hname]
  cases family.splitMembers kind members <;> rfl

theorem splitMembers_some {kind : κ} {members : List (String × Value)}
    {result : Option κ × List (String × Value)} :
    family.splitMembers (some kind) members = .ok result ↔
      occurrences "kind" members = [] ∧ result = (some kind, others members) := by
  induction members generalizing result with
  | nil => simp [Family.splitMembers, others, eq_comm]
  | cons member members ih =>
      obtain ⟨key, value⟩ := member
      by_cases hkey : key = "kind"
      · subst hkey
        simp [Family.splitMembers]
      · rw [splitMembers_cons_of_ne hkey, map_ok_iff, occurrences_cons_of_ne hkey,
          others_cons_of_ne hkey]
        constructor
        · rintro ⟨inner, hinner, rfl⟩
          obtain ⟨hnone, rfl⟩ := ih.mp hinner
          exact ⟨hnone, rfl⟩
        · rintro ⟨hnone, rfl⟩
          exact ⟨_, ih.mpr ⟨hnone, rfl⟩, rfl⟩

theorem splitMembers_none {kind : κ} {members rest : List (String × Value)} :
    family.splitMembers none members = .ok (some kind, rest) ↔
      (∃ value, occurrences "kind" members = [value] ∧ family.kindOf value = .ok kind) ∧
        rest = others members := by
  induction members generalizing rest with
  | nil => simp [Family.splitMembers]
  | cons member members ih =>
      obtain ⟨key, value⟩ := member
      by_cases hkey : key = "kind"
      · subst hkey
        rw [Family.splitMembers, if_pos rfl, occurrences_cons_self, others_cons_kind]
        simp only [Option.isSome_none, Bool.false_eq_true, if_false, bind_ok_iff, splitMembers_some]
        constructor
        · rintro ⟨found, hkind, hnone, hresult⟩
          cases hresult
          exact ⟨⟨value, by rw [hnone], hkind⟩, rfl⟩
        · rintro ⟨⟨only, honly, hkind⟩, rfl⟩
          obtain ⟨rfl, hnone⟩ := List.cons.inj honly
          exact ⟨kind, hkind, hnone, rfl⟩
      · rw [splitMembers_cons_of_ne hkey, map_ok_iff, occurrences_cons_of_ne hkey,
          others_cons_of_ne hkey]
        constructor
        · rintro ⟨⟨found, inner⟩, hinner, hresult⟩
          cases hresult
          obtain ⟨htag, rfl⟩ := ih.mp hinner
          exact ⟨htag, rfl⟩
        · rintro ⟨htag, rfl⟩
          exact ⟨_, ih.mpr ⟨htag, rfl⟩, rfl⟩

/-- A value with a tag, which stands once among its members, anywhere, or in
front of its items. -/
inductive Tagged : Value → Value → Content → Prop where
  | object {members tag} : occurrences "kind" members = [tag] →
      Tagged (.object members) tag (.members (others members))
  | array {tag items} : Tagged (.array (tag :: items)) tag (.items items)

theorem Tagged.tag_unique {value tag tag' : Value} {content content' : Content}
    (htagged : Tagged value tag content) (htagged' : Tagged value tag' content') : tag = tag' := by
  cases htagged with
  | object honce =>
      cases htagged' with
      | object honce' => exact (List.cons.inj (honce.symm.trans honce')).1
  | array =>
      cases htagged'
      rfl

theorem split_eq_ok {value : Value} {kind : κ} {content : Content} :
    family.split value = .ok (kind, content) ↔
      ∃ tag, Tagged value tag content ∧ family.kindOf tag = .ok kind := by
  constructor
  · intro hsplit
    cases value with
    | object members =>
        simp only [Family.split, bind_ok_iff] at hsplit
        obtain ⟨⟨found, rest⟩, hmembers, hdone⟩ := hsplit
        cases found with
        | none => cases hdone
        | some found =>
            cases hdone
            obtain ⟨⟨tag, htag, hkind⟩, rfl⟩ := splitMembers_none.mp hmembers
            exact ⟨tag, .object htag, hkind⟩
    | array items =>
        cases items with
        | nil => cases hsplit
        | cons tag items =>
            simp only [Family.split, bind_ok_iff] at hsplit
            obtain ⟨found, hkind, hdone⟩ := hsplit
            cases hdone
            exact ⟨tag, .array, hkind⟩
    | _ => cases hsplit
  · rintro ⟨tag, htagged, hkind⟩
    cases htagged with
    | object htag =>
        simp only [Family.split, bind_ok_iff]
        exact ⟨_, splitMembers_none.mpr ⟨⟨tag, htag, hkind⟩, rfl⟩, rfl⟩
    | array =>
        simp only [Family.split, bind_ok_iff]
        exact ⟨kind, hkind, rfl⟩

end Tagged

/-! ## Replacing the values of fields -/

section Kept

variable {α σ : Type}

/-- Replacing a value does not change what it is decoded to. -/
def Preserves (decode : Value → Decoded α) (R : Value → Value → Prop) : Prop :=
  ∀ {value value' a}, R value value' → decode value = .ok a → decode value' = .ok a

/-- If there is at most one value, the others are the same up to `R`. -/
def Kept (R : Value → Value → Prop) (values values' : List Value) : Prop :=
  (values = [] → values' = []) ∧
    ∀ value, values = [value] → ∃ value', values' = [value'] ∧ R value value'

/-- The parts of a record, each with the part it plays. -/
abbrev Fields (ρ : Type) := List (String × ρ)

variable {ρ : Type} (Same : ρ → Value → Value → Prop)

def MembersKept (fields : Fields ρ) (members members' : List (String × Value)) : Prop :=
  ∀ field ∈ fields, Kept (Same field.2) (occurrences field.1 members) (occurrences field.1 members')

def ItemsKept : Fields ρ → List Value → List Value → Prop
  | [], items, items' => items.length = items'.length
  | _ :: _, [], items' => items' = []
  | _ :: _, _ :: _, [] => False
  | field :: fields, item :: items, item' :: items' =>
      Same field.2 item item' ∧ ItemsKept fields items items'

/-- Two contents have the same fields with replaced values. -/
def ContentKept (fields : Fields ρ) : Content → Content → Prop
  | .members members, .members members' => MembersKept Same fields members members'
  | .items items, .items items' => ItemsKept Same fields items items'
  | _, _ => False

/-- A record with these fields does not notice that the values of its fields
are replaced. -/
structure Record.Respects (record : Record σ α) (fields : Fields ρ) : Prop where
  ignores : ∀ key, key ∉ fields.map Prod.fst → record.Ignores key
  members : ∀ {subject members members' a}, MembersKept Same fields members members' →
    record.read subject (.members members) = .ok a →
    record.read subject (.members members') = .ok a
  items : ∀ {behind expected index items items' a rest},
    ItemsKept Same (fields ++ behind) items items' →
    record.take expected index items = .ok (a, rest) →
    ∃ rest', record.take expected index items' = .ok (a, rest') ∧ ItemsKept Same behind rest rest'

variable {Same}

theorem itemsKept_nil (fields : Fields ρ) : ItemsKept Same fields [] [] := by
  cases fields <;> rfl

theorem respects_field {name : String} {decode : Value → Decoded α} {absent : Option α} {part : ρ}
    (hdecode : Preserves decode (Same part)) :
    (Record.field name decode absent).Respects Same [(name, part)] where
  ignores key hkey := Record.ignores_field (by simpa using hkey)
  members := by
    intro subject members members' a hkept hread
    obtain ⟨hnone, hone⟩ := hkept (name, part) (by simp)
    rw [Record.read_field_eq_ok] at hread ⊢
    rcases hread with ⟨hempty, habsent⟩ | ⟨value, hsingle, hvalue⟩
    · exact .inl ⟨hnone hempty, habsent⟩
    · obtain ⟨value', hsingle', hsame⟩ := hone value hsingle
      exact .inr ⟨value', hsingle', hdecode hsame hvalue⟩
  items := by
    intro behind expected index items items' a rest hkept htake
    cases items with
    | nil =>
        cases hkept
        refine ⟨rest, htake, ?_⟩
        cases absent with
        | none => cases htake
        | some b =>
            cases htake
            exact itemsKept_nil behind
    | cons item items =>
        cases items' with
        | nil => cases hkept
        | cons item' items' =>
            obtain ⟨hitem, hrest⟩ := hkept
            simp only [Record.field, map_ok_iff] at htake ⊢
            obtain ⟨b, hb, hdone⟩ := htake
            cases hdone
            exact ⟨items', ⟨a, hdecode hitem hb, rfl⟩, hrest⟩

theorem Record.Respects.and {τ β : Type} {first : Record σ α} {second : Record τ β}
    {front back : Fields ρ} (hfirst : first.Respects Same front)
    (hsecond : second.Respects Same back)
    (hapart : ∀ name ∈ front.map Prod.fst, name ∉ back.map Prod.fst) :
    (first.and second).Respects Same (front ++ back) := by
  have hignores : ∀ key, first.Ignores key ∨ second.Ignores key := by
    intro key
    by_cases hkey : key ∈ front.map Prod.fst
    · exact .inr (hsecond.ignores key (hapart key hkey))
    · exact .inl (hfirst.ignores key hkey)
  refine ⟨?_, ?_, ?_⟩
  · intro key hkey
    rw [List.map_append, List.mem_append, not_or] at hkey
    exact Record.ignores_and (hfirst.ignores key hkey.1) (hsecond.ignores key hkey.2)
  · intro subject members members' a hkept hread
    rw [Record.read_and_eq_ok hignores] at hread ⊢
    exact ⟨hfirst.members (fun field hmem => hkept field (by simp [hmem])) hread.1,
      hsecond.members (fun field hmem => hkept field (by simp [hmem])) hread.2⟩
  · intro behind expected index items items' result rest hkept htake
    rw [List.append_assoc] at hkept
    simp only [Record.and, bind_ok_iff] at htake ⊢
    obtain ⟨⟨a, middle⟩, ha, ⟨b, rest⟩, hb, hdone⟩ := htake
    cases hdone
    obtain ⟨middle', ha', hmiddle⟩ := hfirst.items hkept ha
    obtain ⟨rest', hb', hrest⟩ := hsecond.items hmiddle hb
    exact ⟨rest', ⟨(a, middle'), ha', (b, rest'), hb', rfl⟩, hrest⟩

theorem Record.Respects.read {record : Record σ α} {fields : Fields ρ}
    (hrecord : record.Respects Same fields) {subject : String} {content content' : Content} {a : α}
    (hkept : ContentKept Same fields content content')
    (hread : record.read subject content = .ok a) : record.read subject content' = .ok a := by
  cases content with
  | members members =>
      cases content' with
      | members members' => exact hrecord.members hkept hread
      | items items' => cases hkept
  | items items =>
      cases content' with
      | members members' => cases hkept
      | items items' =>
          simp only [Record.read, bind_ok_iff] at hread ⊢
          obtain ⟨⟨b, rest⟩, htake, hend⟩ := hread
          have hkept' : ItemsKept Same (fields ++ []) items items' := by
            rw [List.append_nil]
            exact hkept
          obtain ⟨rest', htake', hrest⟩ := hrecord.items hkept' htake
          refine ⟨(b, rest'), htake', ?_⟩
          simp only [List.isEmpty_iff_length_eq_zero] at hend ⊢
          split_ifs at hend with hempty
          cases hend
          rw [if_pos (hrest.symm.trans hempty)]
          rfl

theorem readNothing_kept {content content' : Content}
    (hkept : ContentKept Same ([] : Fields ρ) content content')
    (hread : readNothing content = .ok ()) : readNothing content' = .ok () := by
  cases content with
  | members members =>
      cases content' with
      | members members' => rfl
      | items items' => cases hkept
  | items items =>
      cases content' with
      | members members' => cases hkept
      | items items' =>
          have hlength : items.length = items'.length := hkept
          simp only [readNothing, List.isEmpty_iff_length_eq_zero] at hread ⊢
          rw [← hlength]
          exact hread

end Kept
end Interchange
end SyntaxDump

import SyntaxDump.Json.Error

/-!
# Records

A record is a list of named fields.  Its content comes either as the members
of an object, in any order and among unknown ones, or as the items of a list,
in the order of the fields.  Members are looked at in the order of the text,
so the first one that is at fault decides the error; fields that are missing
are reported after that, in the order of the fields.
-/

namespace SyntaxDump
namespace Interchange

open Json (Value ContentError)

/-- What decoding returns, unless the content is at fault. -/
abbrev Decoded := Except ContentError

/-- What a record is read from. -/
inductive Content where
  | members (members : List (String × Value))
  | items (items : List Value)

/-- A record with values of type `α`; while members come in, `σ` holds those
found so far. -/
structure Record (σ α : Type) where
  /-- the number of fields -/
  size : Nat
  start : σ
  /-- take a member, unless its name is none of the fields -/
  store : σ → String → Value → Decoded (Option σ)
  /-- the values of all fields -/
  finish : σ → Decoded α
  /-- take items, the first of which is number `index`; `expected` describes
  the whole record -/
  take : (expected : String) → (index : Nat) → List Value → Decoded (α × List Value)

namespace Record

/-- A single field.  `absent` is its value if it is left out, if that is
allowed. -/
def field {α : Type} (name : String) (decode : Value → Decoded α) (absent : Option α) :
    Record (Option α) α where
  size := 1
  start := none
  store state key value :=
    if key = name then
      match state with
      | some _ => .error (.duplicateField name)
      | none => (decode value).map fun value => some (some value)
    else .ok none
  finish state :=
    match state, absent with
    | some value, _ => .ok value
    | none, some value => .ok value
    | none, none => .error (.missingField name)
  take expected index items :=
    match items, absent with
    | item :: rest, _ => (decode item).map fun value => (value, rest)
    | [], some value => .ok (value, [])
    | [], none => .error (.invalidLength index expected)

/-- A field that must be there. -/
def required {α : Type} (name : String) (decode : Value → Decoded α) : Record (Option α) α :=
  field name decode none

/-- A field that may be left out. -/
def optional {α : Type} (name : String) (decode : Value → Decoded α) (absent : α) :
    Record (Option α) α :=
  field name decode (some absent)

/-- The fields of one record behind those of another. -/
def and {σ τ α β : Type} (first : Record σ α) (second : Record τ β) :
    Record (σ × τ) (α × β) where
  size := first.size + second.size
  start := (first.start, second.start)
  store state key value := do
    match ← first.store state.1 key value with
    | some found => return some (found, state.2)
    | none =>
        match ← second.store state.2 key value with
        | some found => return some (state.1, found)
        | none => return none
  finish state := do
    let a ← first.finish state.1
    let b ← second.finish state.2
    return (a, b)
  take expected index items := do
    let (a, items) ← first.take expected index items
    let (b, items) ← second.take expected (index + first.size) items
    return ((a, b), items)

/-- A number of elements in words. -/
def elements (count : Nat) : String :=
  Decimal.natText count ++ (if count = 1 then " element" else " elements")

/-- Take members one after the other and skip those that are no fields. -/
def storeAll {σ α : Type} (record : Record σ α) : σ → List (String × Value) → Decoded σ
  | state, [] => .ok state
  | state, (key, value) :: rest => do
      match ← record.store state key value with
      | some state => record.storeAll state rest
      | none => record.storeAll state rest

/-- Read a record; `subject` names it in messages. -/
def read {σ α : Type} (record : Record σ α) (subject : String) : Content → Decoded α
  | .members members => do
      let state ← record.storeAll record.start members
      record.finish state
  | .items items => do
      let (value, rest) ← record.take (subject ++ " with " ++ elements record.size) 0 items
      if rest.isEmpty then return value
      else .error (.invalidLength items.length (elements record.size ++ " in sequence"))

end Record

/-- Content without fields: members are ignored, items are not allowed. -/
def readNothing : Content → Decoded Unit
  | .members _ => .ok ()
  | .items items =>
      if items.isEmpty then .ok ()
      else .error (.invalidLength items.length (Record.elements 0 ++ " in sequence"))

end Interchange
end SyntaxDump

import Mathlib.Tactic
import SyntaxDump.Json.Value

/-!
# JSON values as nested data

An induction principle whose hypotheses speak of the items and members of a
container, and three notions that follow the nesting: the depth, the values
that have a text which can be read, and the replacement of all doubles.
-/

namespace SyntaxDump
namespace Json

def InWordRange (i : Int) : Prop := -2 ^ 63 ≤ i ∧ i < 2 ^ 64

namespace Value

/-- A property of all values follows from the scalars and from containers whose
items or members have it. -/
@[elab_as_elim]
theorem nestedInduction {motive : Value → Prop}
    (null : motive .null)
    (bool : ∀ value, motive (.bool value))
    (integer : ∀ value, motive (.integer value))
    (float : ∀ value, motive (.float value))
    (string : ∀ value, motive (.string value))
    (array : ∀ items, (∀ item ∈ items, motive item) → motive (.array items))
    (object : ∀ members : List (String × Value),
      (∀ member ∈ members, motive member.2) → motive (.object members))
    (value : Value) : motive value := by
  refine @Value.rec motive
    (fun items => ∀ item ∈ items, motive item)
    (fun members => ∀ member ∈ members, motive member.2)
    (fun member => motive member.2)
    null bool integer float string array object ?_ ?_ ?_ ?_ ?_ value
  · simp
  · intro item items hitem hitems other hother
    rcases List.mem_cons.mp hother with heq | hmem
    · subst heq
      exact hitem
    · exact hitems other hmem
  · simp
  · intro member members hmember hmembers other hother
    rcases List.mem_cons.mp hother with heq | hmem
    · subst heq
      exact hmember
    · exact hmembers other hmem
  · intro name value hvalue
    exact hvalue

/-! ## Depth -/

theorem depthItems_le_iff {items : List Value} {bound : Nat} :
    depthItems items ≤ bound ↔ ∀ item ∈ items, item.depth ≤ bound := by
  induction items with
  | nil => simp [depthItems]
  | cons item items ih => simp [depthItems, ih]

theorem depthMembers_le_iff {members : List (String × Value)} {bound : Nat} :
    depthMembers members ≤ bound ↔ ∀ member ∈ members, member.2.depth ≤ bound := by
  induction members with
  | nil => simp [depthMembers]
  | cons member members ih =>
      obtain ⟨name, value⟩ := member
      simp [depthMembers, ih]

theorem depth_array_le_iff {items : List Value} {bound : Nat} :
    (Value.array items).depth ≤ bound + 1 ↔ ∀ item ∈ items, item.depth ≤ bound := by
  rw [depth, Nat.add_le_add_iff_right, depthItems_le_iff]

theorem depth_object_le_iff {members : List (String × Value)} {bound : Nat} :
    (Value.object members).depth ≤ bound + 1 ↔ ∀ member ∈ members, member.2.depth ≤ bound := by
  rw [depth, Nat.add_le_add_iff_right, depthMembers_le_iff]

/-! ## Values that can be read back -/

mutual
/-- Whole numbers have 64 bits and doubles are finite. -/
def Writable : Value → Prop
  | .integer i => InWordRange i
  | .float x => x.isFinite = true
  | .array items => WritableItems items
  | .object members => WritableMembers members
  | _ => True
def WritableItems : List Value → Prop
  | [] => True
  | item :: items => item.Writable ∧ WritableItems items
def WritableMembers : List (String × Value) → Prop
  | [] => True
  | (_, value) :: members => value.Writable ∧ WritableMembers members
end

theorem writableItems_iff {items : List Value} :
    WritableItems items ↔ ∀ item ∈ items, item.Writable := by
  induction items with
  | nil => simp [WritableItems]
  | cons item items ih => simp [WritableItems, ih]

theorem writableMembers_iff {members : List (String × Value)} :
    WritableMembers members ↔ ∀ member ∈ members, member.2.Writable := by
  induction members with
  | nil => simp [WritableMembers]
  | cons member members ih =>
      obtain ⟨name, value⟩ := member
      simp [WritableMembers, ih]

/-! ## Replacing doubles -/

mutual
def mapFloats (f : Binary64 → Binary64) : Value → Value
  | .float x => .float (f x)
  | .array items => .array (mapFloatsItems f items)
  | .object members => .object (mapFloatsMembers f members)
  | value => value
def mapFloatsItems (f : Binary64 → Binary64) : List Value → List Value
  | [] => []
  | item :: items => item.mapFloats f :: mapFloatsItems f items
def mapFloatsMembers (f : Binary64 → Binary64) : List (String × Value) → List (String × Value)
  | [] => []
  | (name, value) :: members => (name, value.mapFloats f) :: mapFloatsMembers f members
end

theorem mapFloatsItems_eq_map (f : Binary64 → Binary64) (items : List Value) :
    mapFloatsItems f items = items.map (mapFloats f) := by
  induction items with
  | nil => rfl
  | cons item items ih => simp [mapFloatsItems, ih]

theorem mapFloatsMembers_eq_map (f : Binary64 → Binary64) (members : List (String × Value)) :
    mapFloatsMembers f members = members.map fun member => (member.1, member.2.mapFloats f) := by
  induction members with
  | nil => rfl
  | cons member members ih => simp [mapFloatsMembers, ih]

theorem mapFloats_array_eq_self {f : Binary64 → Binary64} {items : List Value} :
    (Value.array items).mapFloats f = .array items ↔ ∀ item ∈ items, item.mapFloats f = item := by
  rw [mapFloats, array.injEq, mapFloatsItems_eq_map]
  nth_rewrite 2 [← List.map_id items]
  rw [List.map_inj_left]
  rfl

theorem mapFloats_object_eq_self {f : Binary64 → Binary64} {members : List (String × Value)} :
    (Value.object members).mapFloats f = .object members ↔
      ∀ member ∈ members, member.2.mapFloats f = member.2 := by
  rw [mapFloats, object.injEq, mapFloatsMembers_eq_map]
  nth_rewrite 2 [← List.map_id members]
  rw [List.map_inj_left]
  simp [Prod.ext_iff]

end Value
end Json
end SyntaxDump

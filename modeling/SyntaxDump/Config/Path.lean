import SyntaxDump.Config.Setting
import SyntaxDump.Decimal.Digits

/-!
# Paths to settings

A path is a name followed by steps: `.name` goes to an entry of a table and
`[number]` to an item of an array.  A negative number counts from the end.
-/

namespace SyntaxDump
namespace Config

inductive Step where
  | entry (name : String)
  | item (index : Int)
deriving DecidableEq, Repr

/-- The steps from the root to a setting. -/
abbrev Path := List Step

namespace Path

/-! ## Reading -/

/-- The characters of names. -/
def isNameChar (c : Char) : Bool := c.isAlphanum || c == ' ' || c == '_' || c == '-'

/-- A name of at least one character. -/
def readName? (cs : List Char) : Option (Step × List Char) :=
  match cs.takeWhile isNameChar with
  | [] => none
  | name => some (.entry (String.ofList name), cs.dropWhile isNameChar)

def isBlank (c : Char) : Bool := c == ' ' || c == '\t'

/-- A number of 64 bits with a sign and the bracket behind it. -/
def readIndex? (cs : List Char) : Option (Step × List Char) :=
  let cs := cs.dropWhile isBlank
  let (negative, cs) := match cs with
    | '-' :: rest => (true, rest)
    | _ => (false, cs)
  let digits := cs.takeWhile Decimal.isDigit
  let magnitude : Int := Decimal.valueOf digits
  let index := if negative then -magnitude else magnitude
  match (cs.dropWhile Decimal.isDigit).dropWhile isBlank with
  | ']' :: rest =>
      if digits ≠ [] ∧ -(natPow 2 63 : Int) ≤ index ∧ index < natPow 2 63 then
        some (.item index, rest)
      else none
  | _ => none

/-- All steps up to the end of a text; `fuel` bounds their number. -/
def readSteps? : (fuel : Nat) → List Char → Option (List Step)
  | _, [] => some []
  | 0, _ => none
  | fuel + 1, c :: rest => do
      let (step, rest) ←
        if c = '.' then readName? rest
        else if c = '[' then readIndex? rest
        else none
      let steps ← readSteps? fuel rest
      return step :: steps

/-- The path that a text describes. -/
def parse? (text : String) : Option Path := do
  let (step, rest) ← readName? text.toList
  let steps ← readSteps? rest.length rest
  return step :: steps

/-! ## Following -/

def unset : Setting := .scalar none .unset

/-- The items of an array; what is no array has none. -/
def itemsOf : Setting → Option String × List Setting
  | .array origin items => (origin, items)
  | _ => (none, [])

/-- Make an array long enough for an index, at its end or, for an index that
leads below its start, at its front.  The result is the place of the index and
the array. -/
def reach (index : Int) (items : List Setting) : Nat × List Setting :=
  match index with
  | .ofNat n => (n, items ++ List.replicate (n + 1 - items.length) unset)
  | .negSucc n =>
      (items.length - (n + 1), List.replicate (n + 1 - items.length) unset ++ items)

/-- Change an item of an array. -/
def changeItem (index : Int) (change : Setting → Setting) (target : Setting) : Setting :=
  let (origin, items) := itemsOf target
  let (place, items) := reach index items
  .array origin (items.modify place change)

/-- Put a setting where a path leads.  Tables and arrays on the way are made
where they are missing. -/
def place (setting : Setting) : Path → Setting → Setting
  | [], target => target
  | [.entry name], target => target.put name setting
  | [.item index], target => changeItem index (fun _ => setting) target
  | .entry name :: path, target =>
      let name := Text.lower name
      target.setEntry name (place setting path ((target.entry? name).getD unset))
  | .item index :: path, target => changeItem index (place setting path) target

end Path
end Config
end SyntaxDump

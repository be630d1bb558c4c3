import SyntaxDump.Toml.Moment
import SyntaxDump.Toml.Text

/-!
# Reading dates and times

A moment is written as such in a document, or is the text of a string that
stands for one.  The two forms differ in which times they accept.
-/

namespace SyntaxDump
namespace Toml

/-- Which times are accepted. -/
structure ClockRule where
  lastHour : Nat
  /-- the last hour and the last minute of a distance from universal time -/
  lastOffsetHour : Nat
  lastOffsetMinute : Nat
  /-- the greatest distance in minutes -/
  maxOffset : Nat

/-- The rule for moments that are written as such. -/
def ClockRule.literal : ClockRule := ⟨23, 23, 59, 1439⟩

/-- The rule for moments in strings. -/
def ClockRule.quoted : ClockRule := ⟨24, 99, 99, 1440⟩

/-! ## Fields -/

/-- A number of exactly `width` digits. -/
def readField (width : Nat) (cs : List Char) : Option (Nat × List Char) :=
  let digits := cs.take width
  if digits.length = width ∧ digits.all Decimal.isDigit then
    some (Decimal.valueOf digits, cs.drop width)
  else none

/-- A number of two digits between bounds. -/
def readPair (least greatest : Nat) (cs : List Char) : Option (Nat × List Char) := do
  let (n, rest) ← readField 2 cs
  if least ≤ n ∧ n ≤ greatest then some (n, rest) else none

/-- A single character. -/
def readChar (expected : Char) : Reader Unit
  | [] => none
  | c :: rest => if c = expected then some ((), rest) else none

/-- A fraction of a second in billionths; further digits are left out. -/
def readBillionths : Reader Nat
  | '.' :: rest =>
      let digits := rest.takeWhile Decimal.isDigit
      if digits.isEmpty then none
      else
        let kept := digits.take 9
        some (Decimal.valueOf kept * natPow 10 (9 - kept.length), rest.drop digits.length)
  | cs => some (0, cs)

/-! ## Dates and times -/

/-- A date that exists. -/
def readDate (cs : List Char) : Option (Date × List Char) := do
  let (year, rest) ← readField 4 cs
  let ((), rest) ← readChar '-' rest
  let (month, rest) ← readPair 1 12 rest
  let ((), rest) ← readChar '-' rest
  let (day, rest) ← readPair 1 (daysOfMonth year month) rest
  return (⟨year, month, day⟩, rest)

def readClock (rule : ClockRule) (cs : List Char) : Option (Clock × List Char) := do
  let (hour, rest) ← readPair 0 rule.lastHour cs
  let ((), rest) ← readChar ':' rest
  let (minute, rest) ← readPair 0 59 rest
  let ((), rest) ← readChar ':' rest
  let (second, rest) ← readPair 0 60 rest
  let (billionths, rest) ← readBillionths rest
  return (⟨hour, minute, second, billionths⟩, rest)

def readOffset (rule : ClockRule) : Reader Offset
  | [] => none
  | c :: rest =>
      if c = 'Z' ∨ c = 'z' then some (.universal, rest)
      else if c = '+' ∨ c = '-' then do
        let (hours, rest) ← readPair 0 rule.lastOffsetHour rest
        let ((), rest) ← readChar ':' rest
        let (minutes, rest) ← readPair 0 rule.lastOffsetMinute rest
        let count := hours * 60 + minutes
        if count ≤ rule.maxOffset then
          some (.minutes (if c = '-' then -count else count), rest)
        else none
      else none

/-- The time behind a date, with the mark between the two. -/
def readClockBehindDate (rule : ClockRule) : Reader (Clock × Option Offset)
  | [] => none
  | c :: rest =>
      if c = 'T' ∨ c = 't' ∨ c = ' ' then do
        let (clock, rest) ← readClock rule rest
        match readOffset rule rest with
        | some (offset, rest) => return ((clock, some offset), rest)
        | none => return ((clock, none), rest)
      else none

def readMoment (rule : ClockRule) (cs : List Char) : Option (Moment × List Char) :=
  match readDate cs with
  | some (date, rest) =>
      match readClockBehindDate rule rest with
      | some ((clock, offset), rest) => some (.both date clock offset, rest)
      | none => some (.date date, rest)
  | none => (readClock rule cs).map fun (clock, rest) => (.clock clock, rest)

/-- The moment that a string stands for. -/
def Moment.ofText? (text : String) : Option Moment :=
  match readMoment .quoted text.toList with
  | some (moment, []) => some moment
  | _ => none

end Toml
end SyntaxDump

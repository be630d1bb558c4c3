import SyntaxDump.Decimal.Digits

/-!
# Dates and times

A moment is a date, a time of the day, or both with an optional distance from
universal time.  In its canonical text a capital `T` stands between date and
time, and a fraction of a second has no zeros at its end.
-/

namespace SyntaxDump
namespace Toml

structure Date where
  year : Nat
  month : Nat
  day : Nat
deriving DecidableEq, Repr

/-- A time of the day. -/
structure Clock where
  hour : Nat
  minute : Nat
  second : Nat
  /-- the fraction of a second, in billionths -/
  billionths : Nat
deriving DecidableEq, Repr

/-- The distance from universal time. -/
inductive Offset where
  | universal
  | minutes (count : Int)
deriving DecidableEq, Repr

inductive Moment where
  | date (day : Date)
  | clock (time : Clock)
  | both (day : Date) (time : Clock) (offset : Option Offset)
deriving DecidableEq, Repr

/-! ## Which dates exist -/

def isLeapYear (year : Nat) : Bool :=
  year % 4 == 0 && (year % 100 != 0 || year % 400 == 0)

def daysOfMonth (year month : Nat) : Nat :=
  if month = 2 then if isLeapYear year then 29 else 28
  else if month ∈ [4, 6, 9, 11] then 30
  else 31

/-! ## Canonical texts -/

/-- A number with zeros in front of it up to the given width. -/
def paddedDigits (width n : Nat) : List Char :=
  List.replicate (width - Decimal.digitCount n) '0' ++ Decimal.digits n

def Date.text (date : Date) : List Char :=
  paddedDigits 4 date.year ++ '-' :: paddedDigits 2 date.month ++ '-' :: paddedDigits 2 date.day

def Clock.text (clock : Clock) : List Char :=
  let fraction := ((paddedDigits 9 clock.billionths).reverse.dropWhile (· == '0')).reverse
  paddedDigits 2 clock.hour ++ ':' :: paddedDigits 2 clock.minute ++ ':' ::
    paddedDigits 2 clock.second ++ if fraction.isEmpty then [] else '.' :: fraction

def Offset.text : Offset → List Char
  | .universal => ['Z']
  | .minutes count =>
      (if count < 0 then '-' else '+') :: paddedDigits 2 (count.natAbs / 60) ++
        ':' :: paddedDigits 2 (count.natAbs % 60)

def Moment.text : Moment → String
  | .date day => String.ofList day.text
  | .clock time => String.ofList time.text
  | .both day time offset =>
      String.ofList (day.text ++ 'T' :: time.text ++ (offset.map Offset.text).getD [])

end Toml
end SyntaxDump

/-!
# Calendar dates

Dates of the proleptic Gregorian calendar with years of at most four digits, before or after year
zero, and their text `YYYY-MM-DD`.
-/

namespace SchemaQuery

namespace Date

/-- Leap years are the multiples of four that are not multiples of a hundred, and the multiples of
four hundred. -/
def isLeapYear (year : Int) : Bool :=
  year % 4 == 0 && (year % 100 != 0 || year % 400 == 0)

/-- The number of days of a month. -/
def daysInMonth (year : Int) (month : Nat) : Nat :=
  match month with
  | 2 => if isLeapYear year then 29 else 28
  | 4 | 6 | 9 | 11 => 30
  | _ => 31

/-- Whether year, month and day name a day of the calendar. -/
def isDay (year : Int) (month day : Nat) : Bool :=
  decide (year.natAbs ≤ 9999) && decide (1 ≤ month ∧ month ≤ 12) &&
    decide (1 ≤ day ∧ day ≤ daysInMonth year month)

end Date

/-- A day of the calendar. -/
structure Date where
  year : Int
  month : Nat
  day : Nat
  valid : Date.isDay year month day = true
deriving DecidableEq

namespace Date

/-- The date of a year, a month and a day, if there is one. -/
def ofYmd? (year : Int) (month day : Nat) : Option Date :=
  if h : isDay year month day = true then some ⟨year, month, day, h⟩ else none

/-- A number with leading zeros up to a width. -/
def padded (width n : Nat) : String :=
  let digits := Nat.toDigits 10 n
  String.ofList (List.replicate (width - digits.length) '0' ++ digits)

/-- The text `YYYY-MM-DD`; a negative year has a leading minus sign. -/
def toText (d : Date) : String :=
  let sign := if d.year < 0 then "-" else ""
  sign ++ padded 4 d.year.natAbs ++ "-" ++ padded 2 d.month ++ "-" ++ padded 2 d.day

end Date

end SchemaQuery

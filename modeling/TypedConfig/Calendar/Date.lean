/-!
# Dates

The proleptic Gregorian calendar over the years `-262143 … 262142`. A date is a year, a month and
a day that exists; `dayNumber` counts days from 1 January of the year 1, a Monday, which has the
number 0, and `ofDayNumber?` is its inverse within the supported years.
-/

namespace TypedConfig.Calendar

/-- The first supported year. -/
def minYear : Int := -262143

/-- The last supported year. -/
def maxYear : Int := 262142

/-- Every fourth year is a leap year, but of the full centuries only every fourth. -/
def isLeap (y : Int) : Bool := y % 4 == 0 && (y % 100 != 0 || y % 400 == 0)

/-- The lengths of the months of a year, in order. -/
def monthLengths (y : Int) : List Nat :=
  [31, if isLeap y then 29 else 28, 31, 30, 31, 30, 31, 31, 30, 31, 30, 31]

/-- The length of month `m` of year `y`, and 0 if there is no such month. -/
def monthLength (y : Int) (m : Nat) : Nat :=
  if m = 0 then 0 else (monthLengths y).getD (m - 1) 0

/-- A day of the supported years, with months and days counted from 1. -/
structure Date where
  year : Int
  month : Nat
  day : Nat
  year_mem : minYear ≤ year ∧ year ≤ maxYear
  month_mem : 1 ≤ month ∧ month ≤ 12
  day_mem : 1 ≤ day ∧ day ≤ monthLength year month
deriving DecidableEq, Repr

/-- The number of days before 1 January of year `y`, counted from the year 1. -/
def daysBeforeYear (y : Int) : Int :=
  365 * (y - 1) + (y - 1) / 4 - (y - 1) / 100 + (y - 1) / 400

/-- The number of days before the first of month `m` within year `y`. -/
def daysBeforeMonth (y : Int) (m : Nat) : Nat := ((monthLengths y).take (m - 1)).foldl (· + ·) 0

/-- The year of a day number. A mean year is off by one year at most. -/
def yearOfDay (n : Int) : Int :=
  let y := 400 * n / 146097 + 1
  if n < daysBeforeYear y then y - 1
  else if daysBeforeYear (y + 1) ≤ n then y + 1
  else y

/-- Splits `k` at the lengths in turn: how many of them fit into it, and what is left. -/
def splitAtLengths : List Nat → Nat → Nat × Nat
  | [], k => (0, k)
  | l :: ls, k =>
    if k < l then (0, k)
    else
      let r := splitAtLengths ls (k - l)
      (r.1 + 1, r.2)

namespace Date

/-- The date with the given year, month and day, if it exists and is supported. -/
def ofYMD? (y : Int) (m d : Nat) : Option Date :=
  if hy : minYear ≤ y ∧ y ≤ maxYear then
    if hm : 1 ≤ m ∧ m ≤ 12 then
      if hd : 1 ≤ d ∧ d ≤ monthLength y m then some ⟨y, m, d, hy, hm, hd⟩ else none
    else none
  else none

/-- The number of days from 1 January of the year 1. -/
def dayNumber (t : Date) : Int :=
  daysBeforeYear t.year + daysBeforeMonth t.year t.month + (t.day - 1 : Nat)

/-- The date with a day number, if its year is supported. -/
def ofDayNumber? (n : Int) : Option Date :=
  let y := yearOfDay n
  let (i, k) := splitAtLengths (monthLengths y) (n - daysBeforeYear y).toNat
  ofYMD? y (i + 1) (k + 1)

/-- The date `n` days later, if it is supported. -/
def addDays? (t : Date) (n : Int) : Option Date := ofDayNumber? (t.dayNumber + n)

/-- The date `n` months later. A day that the target month does not have becomes its last one. -/
def addMonths? (t : Date) (n : Int) : Option Date :=
  let months := 12 * t.year + (t.month - 1 : Nat) + n
  let y := months / 12
  let m := (months % 12).toNat + 1
  ofYMD? y m (min t.day (monthLength y m))

end Date

end TypedConfig.Calendar

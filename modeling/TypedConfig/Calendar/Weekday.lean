import TypedConfig.Calendar.Date

/-!
# Days of the week

Names are read in full or as their first three letters, without regard to ASCII case.
-/

namespace TypedConfig.Calendar

/-- A day of the week. -/
inductive Weekday
  | monday
  | tuesday
  | wednesday
  | thursday
  | friday
  | saturday
  | sunday
deriving DecidableEq, Repr

namespace Weekday

/-- All days, from Monday on. -/
def all : List Weekday := [monday, tuesday, wednesday, thursday, friday, saturday, sunday]

/-- The full name in lower case. -/
def name : Weekday → String
  | monday => "monday"
  | tuesday => "tuesday"
  | wednesday => "wednesday"
  | thursday => "thursday"
  | friday => "friday"
  | saturday => "saturday"
  | sunday => "sunday"

/-- The first three letters of the name. -/
def shortName (w : Weekday) : List Char := w.name.toList.take 3

/-- The day that a word names. -/
def ofWord? (word : List Char) : Option Weekday :=
  let lower := word.map Char.toLower
  all.find? fun w => lower == w.name.toList || lower == w.shortName

end Weekday

/-- The day of the week of a date: day number 0 is a Monday. -/
def Date.weekday (t : Date) : Weekday :=
  match (t.dayNumber % 7).toNat with
  | 0 => .monday
  | 1 => .tuesday
  | 2 => .wednesday
  | 3 => .thursday
  | 4 => .friday
  | 5 => .saturday
  | _ => .sunday

end TypedConfig.Calendar

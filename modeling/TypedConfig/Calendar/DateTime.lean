import TypedConfig.Calendar.Date

/-!
# Times of day and datetimes

A time of day is a second of the day and nanoseconds. A leap second is the second 59 of some minute
with a thousand million nanoseconds or more. Shifting by seconds counts a leap second as the
second before it when going forward and as the second after it when going back.
-/

namespace TypedConfig.Calendar

/-- Nanoseconds in a second. -/
def nanosPerSecond : Nat := 1000000000

/-- Seconds in a day. -/
def secondsPerDay : Nat := 86400

/-- A time of day; a leap second has `nanosPerSecond ≤ nano`. -/
structure Time where
  second : Nat
  nano : Nat
  second_lt : second < secondsPerDay
  nano_lt : nano < 2 * nanosPerSecond
deriving DecidableEq, Repr

namespace Time

/-- The start of a day. -/
def midnight : Time := ⟨0, 0, by decide, by decide⟩

/-- The time `h:m:s` and `n` nanoseconds; second 60 is the leap second of its minute. -/
def ofHMS? (h m s n : Nat) : Option Time :=
  if hh : h < 24 ∧ m < 60 ∧ s ≤ 60 ∧ n < nanosPerSecond then
    some <| if hs : s = 60
      then ⟨3600 * h + 60 * m + 59, n + nanosPerSecond, by simp only [secondsPerDay]; omega,
        by omega⟩
      else ⟨3600 * h + 60 * m + s, n, by simp only [secondsPerDay]; omega, by omega⟩
  else none

/-- Whether the time is within a leap second. -/
def isLeapSecond (t : Time) : Bool := nanosPerSecond ≤ t.nano

/-- The time with its nanoseconds reduced to less than a second. -/
def nanoOfSecond (t : Time) : Nat := t.nano % nanosPerSecond

/-- The time `n` seconds later, with the number of midnights passed. -/
def addSeconds (t : Time) (n : Int) : Time × Int :=
  if t.isLeapSecond ∧ n = 0 then (t, 0)
  else
    let start : Int := if t.isLeapSecond ∧ n < 0 then t.second + 1 else t.second
    let total := start + n
    (⟨(total % secondsPerDay).toNat, t.nanoOfSecond, by simp [secondsPerDay]; omega,
      by have := Nat.mod_lt t.nano (show 0 < nanosPerSecond by decide)
         simp only [nanoOfSecond]; omega⟩,
      total / secondsPerDay)

end Time

/-- A date with a time of day. -/
structure DateTime where
  date : Date
  time : Time
deriving DecidableEq, Repr

namespace DateTime

/-- The datetime `n` seconds later, if its date is supported. -/
def addSeconds? (t : DateTime) (n : Int) : Option DateTime :=
  let (time, days) := t.time.addSeconds n
  (t.date.addDays? days).map fun date => ⟨date, time⟩

/-- The datetime `n` months later at the same time of day. -/
def addMonths? (t : DateTime) (n : Int) : Option DateTime :=
  (t.date.addMonths? n).map fun date => ⟨date, t.time⟩

end DateTime

end TypedConfig.Calendar

import TypedConfig.Calendar.DateTime
import TypedConfig.Calendar.Weekday
import TypedConfig.ParseError

/-!
# Date expressions

A date expression is a chain of steps in front of an anchor: it denotes the datetime that the
steps lead to when they are taken from the last one, next to the anchor, to the first.
-/

namespace TypedConfig

open Calendar

namespace DateExpr

/-- A unit of time. -/
inductive TimeUnit
  | minute
  | hour
  | day
  | week
  | month
  | year
deriving DecidableEq, Repr

/-- Whether a step goes forward or back. -/
inductive Direction
  | after
  | before
deriving DecidableEq, Repr

/-- A number with the sign of a direction. -/
def Direction.signed : Direction → Nat → Int
  | after, n => n
  | before, n => -n

/-- The datetime `n` units later, if it is supported. -/
def TimeUnit.shift? (unit : TimeUnit) (t : DateTime) (n : Int) : Option DateTime :=
  match unit with
  | minute => t.addSeconds? (60 * n)
  | hour => t.addSeconds? (3600 * n)
  | day => t.addSeconds? (secondsPerDay * n)
  | week => t.addSeconds? (7 * secondsPerDay * n)
  | month => t.addMonths? n
  | year => t.addMonths? (12 * n)

/-- The datetime `n` units later. -/
def TimeUnit.shift (unit : TimeUnit) (t : DateTime) (n : Int) : Except ParseError DateTime :=
  match unit.shift? t n with
  | some t => .ok t
  | none => .error (.outOfRange (Decimal.floatOfInt n))

/-- Goes day by day until the day of the week is listed; `limit` days at most. -/
def seekWeekday (days : List Weekday) (dir : Direction) :
    (limit : Nat) → DateTime → Except ParseError DateTime
  | 0, _ => .error (.date .weekdayUnreachable)
  | limit + 1, t =>
    match t.addSeconds? (dir.signed secondsPerDay) with
    | none => .error (.outOfRange (Decimal.floatOfInt 0))
    | some t => if t.date.weekday ∈ days then .ok t else seekWeekday days dir limit t

/-- The nearest datetime on a listed day of the week, on another day than `t`. -/
def firstWeekday (days : List Weekday) (dir : Direction) (t : DateTime) :
    Except ParseError DateTime :=
  seekWeekday days dir 7 t

/-- A step of a chain. -/
inductive Step
  | shift (magnitude : Nat) (unit : TimeUnit) (dir : Direction)
  | firstWeekday (days : List Weekday) (dir : Direction)
deriving DecidableEq, Repr

/-- The datetime that a step leads to. -/
def Step.apply : Step → DateTime → Except ParseError DateTime
  | shift magnitude unit dir, t => unit.shift t (dir.signed magnitude)
  | firstWeekday days dir, t => DateExpr.firstWeekday days dir t

end DateExpr

/-- A chain of steps in front of an anchor. -/
structure DateExpr where
  steps : List DateExpr.Step
  anchor : DateTime
deriving DecidableEq, Repr

/-- The datetime that a date expression denotes. -/
def DateExpr.evaluate (e : DateExpr) : Except ParseError DateTime :=
  e.steps.foldrM Step.apply e.anchor

end TypedConfig

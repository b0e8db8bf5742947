import TypedConfig.Calendar.Written
import TypedConfig.DateExpr.Basic
import TypedConfig.Text.Digit
import TypedConfig.Text.Fold

/-!
# Reading date expressions

A step is written `<digits> <unit> after|before` or `first <weekdays> after|before`, and the rest of
the text is the anchor, itself a date expression. Letters may have either case, blanks may be any.
A step or anchor with a line feed inside is not one. A datetime may end in `at <time of day>`.
-/

namespace TypedConfig.DateExpr

open Text Calendar

/-- How many steps an expression may have. -/
def maxSteps : Nat := 256

/-- The written parts of a step. -/
inductive StepText
  | shift (digits unit : List Char) (dir : Direction)
  | firstWeekday (list : List Char) (dir : Direction)
deriving DecidableEq, Repr

/-! ### The form of a step -/

/-- What follows the blanks, one at least, that a text starts with. -/
def afterBlanks? : List Char → Option (List Char)
  | c :: cs => if isBlank c then some (trimStart cs) else none
  | [] => none

/-- The direction that a text starts with, and the rest. -/
def readDirection (cs : List Char) : Option (Direction × List Char) :=
  match afterWord? "after".toList cs with
  | some rest => some (.after, rest)
  | none => (afterWord? "before".toList cs).map fun rest => (.before, rest)

/-- The anchor after a direction: blanks, and then a text without line feeds, blanks around it
aside. It may be a blank of its own, after the first one. -/
def readAnchor : List Char → Option (List Char)
  | [] => none
  | c :: cs =>
    if !isBlank c then none
    else
      let core := trim cs
      if core.isEmpty then if cs.any (· != '\n') then some [] else none
      else if core.contains '\n' then none
      else some core

/-- Blanks, a direction and an anchor. -/
def readTail (cs : List Char) : Option (Direction × List Char) := do
  let (dir, cs) ← readDirection (← afterBlanks? cs)
  return (dir, ← readAnchor cs)

/-- The shortest list of words, not empty and without line feeds, that a direction and an anchor
follow; `list` is its start, reversed. -/
def readList (list : List Char) : List Char → Option (List Char × Direction × List Char)
  | [] => none
  | c :: cs =>
    if c = '\n' then none
    else match readTail cs with
      | some (dir, anchor) => some ((c :: list).reverse, dir, anchor)
      | none => readList (c :: list) cs

/-- The parts of `first <list> after|before <anchor>` after the first word. If nothing else fits, a
blank between two others is the list. -/
def readFirst (cs : List Char) : Option (StepText × List Char) := do
  let body ← afterBlanks? cs
  match readList [] body with
  | some (list, dir, anchor) => return (.firstWeekday list dir, anchor)
  | none =>
    let blanks := cs.takeWhile isBlank
    if (blanks.tail.dropLast).any (· != '\n') then
      let (dir, anchor) ← readTail (blanks.take 1 ++ body)
      return (.firstWeekday [] dir, anchor)
    else none

/-- The parts of `<digits> <unit> after|before <anchor>`. -/
def readShift (cs : List Char) : Option (StepText × List Char) := do
  let ds := cs.takeWhile isDecimalDigit
  let cs ← afterBlanks? (cs.dropWhile isDecimalDigit)
  let unit := cs.takeWhile isFoldedLetter
  if ds.isEmpty || unit.isEmpty then none
  let (dir, anchor) ← readTail (cs.dropWhile isFoldedLetter)
  return (.shift ds unit dir, anchor)

/-- The first step of an expression and the text of its anchor. -/
def readStep (cs : List Char) : Option (StepText × List Char) :=
  let cs := trimStart cs
  match afterWord? "first".toList cs with
  | some rest => readFirst rest
  | none => readShift cs

/-! ### The meaning of a step -/

/-- The unit that a word names, in the singular or the plural. -/
def TimeUnit.ofWord? (word : List Char) : Option TimeUnit :=
  let lower := word.map Char.toLower
  let singular := if lower.getLast? = some 's' then lower.dropLast else lower
  match String.ofList singular with
  | "minute" => some .minute
  | "hour" => some .hour
  | "day" => some .day
  | "week" => some .week
  | "month" => some .month
  | "year" => some .year
  | _ => none

/-- Whether a word of a list of weekdays is the conjunction. -/
def isOr (word : List Char) : Bool := word.map Char.toLower == ['o', 'r']

/-- The days of the week of a list, apart by commas, blanks or the word `or`. -/
def readWeekdays (list : List Char) : Except ParseError (List Weekday) := do
  let words := (splitWhere (fun c => c == ',' || isBlank c) list).filter fun word =>
    !word.isEmpty && !isOr word
  let days ← words.mapM fun word =>
    match Weekday.ofWord? word with
    | some day => .ok day
    | none => .error (.date (.weekday word))
  if days.isEmpty then throw (.date .weekdaysMissing)
  return days

/-- The step that is written. -/
def StepText.read : StepText → Except ParseError Step
  | firstWeekday list dir => return .firstWeekday (← readWeekdays list) dir
  | shift ds unit dir =>
    match word32? ds with
    | none => .error (.date (.magnitude ds))
    | some n =>
      match TimeUnit.ofWord? unit with
      | none => .error (.date (.unknownUnit unit))
      | some unit => .ok (.shift n unit dir)

/-! ### Expressions -/

/-- The expression that a text holds, with a limit to its steps. -/
def readUpTo (target : DateTarget) : (limit : Nat) → List Char → Except ParseError DateExpr
  | limit, cs =>
    match DateTime.ofLiteral? cs, limit with
    | some anchor, _ => .ok ⟨[], anchor⟩
    | none, 0 => .error (.date (.nestedTooDeeply target))
    | none, limit + 1 =>
      match readStep cs with
      | none => .error (.date (.unreadable (trim cs) target))
      | some (stepText, anchorText) => do
        let step ← stepText.read
        let e ← readUpTo target limit anchorText
        return { e with steps := step :: e.steps }

/-- The expression that a text holds. -/
def read (target : DateTarget) (cs : List Char) : Except ParseError DateExpr :=
  readUpTo target maxSteps cs

/-- Whether a word has the form of a time of day: digits of any script, apart by colons. -/
def isTimeForm (word : List Char) : Bool :=
  match splitWhere (· == ':') word with
  | hour :: minute :: rest =>
    (hour.length == 1 || hour.length == 2) && minute.length == 2 &&
      (rest.isEmpty || rest.map List.length == [2]) &&
      (hour :: minute :: rest).all fun part => part.all isDecimalDigit
  | _ => false

/-- The text before a final `at <time of day>`, and the word after `at`. -/
def splitTime? (cs : List Char) : Option (List Char × List Char) := do
  let reversed := (trimEnd cs).reverse
  let word := (reversed.takeWhile fun c => !isBlank c).reverse
  if !isTimeForm word then none
  let rest ← afterBlanks? (reversed.dropWhile fun c => !isBlank c)
  let rest ← afterBlanks? (← afterWord? "ta".toList rest)
  if rest.isEmpty || rest.contains '\n' then none
  return (rest.reverse, word)

/-- The datetime of a date expression. -/
def readDateTime (target : DateTarget) (cs : List Char) : Except ParseError DateTime := do
  (← read target cs).evaluate

/-- The date of a text. -/
def parseDate (text : String) : Except ParseError Date :=
  return (← readDateTime .date text.toList).date

/-- The datetime of a text. -/
def parseDateTime (text : String) : Except ParseError DateTime :=
  match splitTime? text.toList with
  | none => readDateTime .dateTime text.toList
  | some (cs, word) =>
    match Time.ofWord? word with
    | none => .error (.date (.timeOfDay word))
    | some time => return ⟨(← readDateTime .dateTime cs).date, time⟩

end TypedConfig.DateExpr

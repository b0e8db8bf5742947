import TypedConfig.Calendar.DateTime
import TypedConfig.Text.Numeral

/-!
# Written dates and datetimes

`Date.text` and `DateTime.text` write ISO 8601 forms; `Date.ofLiteral?` and `DateTime.ofLiteral?`
read them, and a few looser ones: a field may have fewer digits and blanks before it, the date and
the time may be apart by any blanks or none, the seconds may be missing.
-/

namespace TypedConfig.Calendar

open Text

/-- A numeral with zeros in front up to a width. -/
def padded (width n : Nat) : List Char :=
  List.replicate (width - (digits n).length) '0' ++ digits n

/-! ### Writing -/

/-- A year: four digits, and beyond them a sign and four digits or more. -/
def yearText (y : Int) : List Char :=
  if 0 ≤ y ∧ y ≤ 9999 then padded 4 y.toNat
  else (if y < 0 then '-' else '+') :: padded 4 y.natAbs

/-- A fraction of a second in nanoseconds: nothing, or three, six or nine digits. -/
def fractionText (n : Nat) : List Char :=
  if n = 0 then []
  else if n % 1000000 = 0 then '.' :: padded 3 (n / 1000000)
  else if n % 1000 = 0 then '.' :: padded 6 (n / 1000)
  else '.' :: padded 9 n

namespace Date

/-- The characters of `YYYY-MM-DD`. -/
def chars (t : Date) : List Char :=
  yearText t.year ++ '-' :: padded 2 t.month ++ '-' :: padded 2 t.day

/-- The written form `YYYY-MM-DD`. -/
def text (t : Date) : String := String.ofList t.chars

end Date

namespace Time

/-- The characters of `HH:MM:SS` and the fraction; a leap second is second 60. -/
def chars (t : Time) : List Char :=
  padded 2 (t.second / 3600) ++ ':' :: padded 2 (t.second / 60 % 60) ++
    ':' :: padded 2 (t.second % 60 + t.nano / nanosPerSecond) ++ fractionText t.nanoOfSecond

end Time

namespace DateTime

/-- The written form `YYYY-MM-DDTHH:MM:SS` with a fraction if there is one. -/
def text (t : DateTime) : String := String.ofList (t.date.chars ++ 'T' :: t.time.chars)

end DateTime

/-! ### Reading -/

/-- A reader of some text returns what it read and the text that follows. -/
abbrev Reader (α : Type) := List Char → Option (α × List Char)

/-- The digits at the start of a text, `limit` of them at most. -/
def readDigits (limit : Nat) : Reader Nat := fun cs =>
  let ds := (cs.take limit).takeWhile Char.isDigit
  if ds.isEmpty then none else some (Nat.ofDigitChars 10 ds 0, cs.drop ds.length)

/-- A field of at most two digits, after any blanks. -/
def readField : Reader Nat := fun cs => readDigits 2 (trimStart cs)

/-- A year after any blanks: at most four digits, or a sign and any number of them. -/
def readYear : Reader Int := fun cs =>
  match trimStart cs with
  | '-' :: cs => (readDigits cs.length cs).map fun (n, rest) => (-(n : Int), rest)
  | '+' :: cs => (readDigits cs.length cs).map fun (n, rest) => ((n : Int), rest)
  | cs => (readDigits 4 cs).map fun (n, rest) => ((n : Int), rest)

/-- One given character. -/
def readChar (c : Char) : Reader Unit
  | d :: cs => if c = d then some ((), cs) else none
  | [] => none

/-- A date that exists. -/
def readDate : Reader Date := fun cs => do
  let (y, cs) ← readYear cs
  let ((), cs) ← readChar '-' cs
  let (m, cs) ← readField cs
  let ((), cs) ← readChar '-' cs
  let (d, cs) ← readField cs
  return (← Date.ofYMD? y m d, cs)

/-- An optional fraction of a second, in nanoseconds; digits after the ninth are dropped. -/
def readFraction : Reader Nat
  | '.' :: cs => do
    let (n, rest) ← readDigits 9 cs
    let places := cs.length - rest.length
    return (n * Nat.pow 10 (9 - places), rest.dropWhile Char.isDigit)
  | cs => some (0, cs)

/-- What follows the minutes of a time of day. -/
inductive Seconds
  | none
  | whole
  | fractional
deriving DecidableEq, Repr

/-- A time of day. -/
def readTime (seconds : Seconds) : Reader Time := fun cs => do
  let (h, cs) ← readField cs
  let ((), cs) ← readChar ':' cs
  let (m, cs) ← readField cs
  match seconds with
  | .none => return (← Time.ofHMS? h m 0 0, cs)
  | .whole =>
    let ((), cs) ← readChar ':' cs
    let (s, cs) ← readField cs
    return (← Time.ofHMS? h m s 0, cs)
  | .fractional =>
    let ((), cs) ← readChar ':' cs
    let (s, cs) ← readField cs
    let (n, cs) ← readFraction cs
    return (← Time.ofHMS? h m s n, cs)

/-- What stands between a date and a time: the letter `T`, or blanks, or nothing. -/
def readSeparator (letter : Bool) : Reader Unit := fun cs =>
  if letter then readChar 'T' cs else some ((), trimStart cs)

/-- A whole text read by `reader`. -/
def readAll {α : Type} (reader : Reader α) (cs : List Char) : Option α :=
  match reader cs with
  | some (a, []) => some a
  | _ => none

/-- A date and a time of day. -/
def readDateTime (letter : Bool) (seconds : Seconds) : Reader DateTime := fun cs => do
  let (date, cs) ← readDate cs
  let ((), cs) ← readSeparator letter cs
  let (time, cs) ← readTime seconds cs
  return (⟨date, time⟩, cs)

/-- The date that a literal names, blanks around it aside. -/
def Date.ofLiteral? (cs : List Char) : Option Date := readAll readDate (trim cs)

/-- The datetime that a literal names; a date alone is its midnight. -/
def DateTime.ofLiteral? (cs : List Char) : Option DateTime :=
  readAll (readDateTime true .fractional) (trim cs)
    <|> readAll (readDateTime false .fractional) (trim cs)
    <|> readAll (readDateTime true .none) (trim cs)
    <|> readAll (readDateTime false .none) (trim cs)
    <|> (Date.ofLiteral? cs).map fun date => ⟨date, Time.midnight⟩

/-- The time of day that a word names, with or without seconds. -/
def Time.ofWord? (cs : List Char) : Option Time :=
  readAll (readTime .whole) cs <|> readAll (readTime .none) cs

end TypedConfig.Calendar

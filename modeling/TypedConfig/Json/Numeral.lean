import TypedConfig.Json.Basic

/-!
# Numerals of JSON texts

A whole part without leading zeros, then an optional fraction and an optional exponent. A numeral
that is no whole number of 64 bits is a double, found by double arithmetic alone: the digits that
fit an unsigned word, as a double, times or over a power of ten. That is the nearest double for
numerals of up to fifteen digits and moderate exponents; a longer one may be a neighbour of it.
-/

namespace TypedConfig.Json

/-- Appends digits to a number for as long as it fits an unsigned 64-bit word; the second part is
what is left of the digits. -/
def appendDigits (n : Nat) : List Char → Nat × List Char
  | [] => (n, [])
  | c :: cs =>
    let next := Nat.ofDigitChars 10 [c] n
    if next < 18446744073709551616 then appendDigits next cs else (n, c :: cs)

/-- The power `10 ^ k` as a double; `k` is at most 308. -/
def powerOfTen (k : Nat) : Float := Decimal.toFloat ⟨1, k⟩

/-- The double of a 64-bit word times `10 ^ e`, none if the power is too large. A power too small is
divided by in two steps, and two steps of `10 ^ 308` leave nothing of any word. -/
def scale (n : Nat) (e : Int) : Option Float :=
  let x := Decimal.toFloat ⟨n, 0⟩
  if n = 0 ∨ e < -616 then some 0
  else if e < -308 then some (x / powerOfTen 308 / powerOfTen (-e - 308).toNat)
  else if e < 0 then some (x / powerOfTen (-e).toNat)
  else if e ≤ 308 then some (x * powerOfTen e.toNat)
  else none

/-- The whole number that digits stand for. Minus zero is not one. -/
def wholeOf? (negative : Bool) (ds : List Char) : Option Number :=
  let n := Nat.ofDigitChars 10 ds 0
  if !negative then Number.ofInt? n
  else if n = 0 then none
  else Number.ofInt? (-n)

/-- The double that the digits of a whole part, of a fraction and an exponent stand for. Digits that
are left of the whole part count as places, those left of the fraction do not count. -/
def doubleOf? (negative : Bool) (whole fraction : List Char) (e : Int) : Option Number :=
  let (n, places) := appendDigits 0 whole
  let (n, dropped) := appendDigits n fraction
  (scale n (e + places.length + dropped.length - fraction.length)).bind fun x =>
    Number.ofFloat? (if negative then -x else x)

/-- A number. Whole parts have no leading zeros, points and exponents have digits. -/
def readNumber (cs : List Char) : Option (Number × List Char) := do
  let (negative, cs) := match cs with
    | '-' :: cs => (true, cs)
    | cs => (false, cs)
  let (whole, cs) := Text.splitDigits cs
  if whole.isEmpty || (whole.length > 1 && whole.head? == some '0') then none
  let (hasPoint, fraction, cs) := match cs with
    | '.' :: cs => (true, Text.splitDigits cs)
    | cs => (false, [], cs)
  if hasPoint && fraction.isEmpty then none
  let (hasExponent, negativeExponent, cs) := match cs with
    | c :: rest => if c = 'e' ∨ c = 'E' then (true, Text.splitSign rest) else (false, false, cs)
    | [] => (false, false, cs)
  let (exponent, cs) := if hasExponent then Text.splitDigits cs else ([], cs)
  if hasExponent && exponent.isEmpty then none
  let e : Int := Nat.ofDigitChars 10 exponent 0
  let e := if negativeExponent then -e else e
  let exact := if hasPoint || hasExponent then none else wholeOf? negative whole
  return (← exact <|> doubleOf? negative whole fraction e, cs)

end TypedConfig.Json

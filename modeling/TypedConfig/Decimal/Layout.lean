import TypedConfig.Decimal.Shortest
import TypedConfig.Text.Numeral

/-!
# Written forms of doubles

Three forms share the shortest digits: the plain one never has an exponent, the pointed one is
plain but keeps a fraction `.0` and all digits of a whole number, and the JSON one switches to an
exponent outside of a range of magnitudes and has no form for what is not finite.
-/

namespace TypedConfig.Decimal

open Text

/-- `n` times the digit zero. -/
def zeroDigits (n : Nat) : List Char := List.replicate n '0'

/-- A decimal written with zeros in place of an exponent, `fraction` following a whole number. -/
def positional (d : Decimal) (fraction : List Char) : List Char :=
  let ds := digits d.coefficient
  if 0 ≤ d.exponent then ds ++ zeroDigits d.exponent.toNat ++ fraction
  else
    let places := (-d.exponent).toNat
    let ds := zeroDigits (places + 1 - ds.length) ++ ds
    ds.take (ds.length - places) ++ '.' :: ds.drop (ds.length - places)

/-- A decimal written with one digit before the point and a signed exponent. -/
def scientific (d : Decimal) : List Char :=
  let ds := digits d.coefficient
  let e := d.exponent + (ds.length - 1 : Nat)
  let mark := if e < 0 then ['e', '-'] else ['e', '+']
  let body := match ds with
    | [] => []
    | [c] => [c]
    | c :: cs => c :: '.' :: cs
  body ++ mark ++ digits e.natAbs

/-- The place of the first digit: `d` is in `10 ^ d.magnitude`, …, `10 ^ (d.magnitude + 1)`. -/
def magnitude (d : Decimal) : Int := d.exponent + ((digits d.coefficient).length - 1 : Nat)

/-- Magnitudes that JSON numbers write without an exponent. -/
def isPositionalMagnitude (e : Int) : Bool := -5 ≤ e && e < 16

/-- The plain form: the shortest digits, no exponent, no `.0`. -/
def plainText (x : Float) : String :=
  String.ofList <| match unpack x with
    | .notANumber => ['N', 'a', 'N']
    | .infinity s => signText s ++ ['i', 'n', 'f']
    | .zero s => signText s ++ ['0']
    | .finite s m q _ => signText s ++ positional (shortest .up m q) []

/-- The pointed form: a whole number with all its digits and `.0`, other numbers plain. -/
def pointedText (x : Float) : String :=
  match unpack x with
  | .zero s => String.ofList (signText s ++ ['0', '.', '0'])
  | .finite s m q _ =>
    if isWhole m q then String.ofList (signText s ++ digits (whole m q) ++ ['.', '0'])
    else plainText x
  | _ => plainText x

/-- The JSON form of a finite number, and `null` for the others. -/
def jsonText (x : Float) : String :=
  String.ofList <| match unpack x with
    | .notANumber => ['n', 'u', 'l', 'l']
    | .infinity _ => ['n', 'u', 'l', 'l']
    | .zero s => signText s ++ ['0', '.', '0']
    | .finite s m q _ =>
      let d := shortest .even m q
      signText s ++
        if isPositionalMagnitude d.magnitude then positional d ['.', '0'] else scientific d

end TypedConfig.Decimal

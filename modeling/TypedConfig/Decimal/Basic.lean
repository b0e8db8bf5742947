/-!
# Decimal numbers and doubles

A `Decimal` is `coefficient * 10 ^ exponent`. `toFloat` is the double nearest to it, a tie going to
the even significand; above the largest double it is infinite. In the other direction a finite
double is `m * 2 ^ q` with the `m` and `q` of its unpacked form.
-/

namespace TypedConfig

open Float.Model (UnpackedFloat)
open Float.Model.UnpackedFloat (Sign)

/-- The number `coefficient * 10 ^ exponent`. -/
structure Decimal where
  coefficient : Nat
  exponent : Int
deriving DecidableEq, Repr

namespace Decimal

/-- The double nearest to a decimal number. -/
def toFloat (d : Decimal) : Float := .ofModel (.ofScientific d.coefficient d.exponent)

/-- The double nearest to an integer. -/
def floatOfInt (n : Int) : Float :=
  if n < 0 then -(toFloat ⟨n.natAbs, 0⟩) else toFloat ⟨n.natAbs, 0⟩

/-- The sign, significand and binary exponent of a double, or what else it is. -/
def unpack (x : Float) : UnpackedFloat := x.toModel.unpack

/-- The sign of a negative number or zero. -/
def signText : Sign → List Char
  | .negative => ['-']
  | .positive => []

/-- Whether `m * 2 ^ q` is a whole number. -/
def isWhole (m : Nat) (q : Int) : Bool := 0 ≤ q || m % Nat.pow 2 (-q).toNat == 0

/-- The whole number `m * 2 ^ q`; a fraction is cut off. -/
def whole (m : Nat) (q : Int) : Nat :=
  if 0 ≤ q then m * Nat.pow 2 q.toNat else m / Nat.pow 2 (-q).toNat

/-- The integer that a double is, if it is one. -/
def integer? (x : Float) : Option Int :=
  match unpack x with
  | .zero _ => some 0
  | .finite s m q _ =>
    if isWhole m q then
      some (match s with | .positive => (whole m q : Int) | .negative => -(whole m q : Int))
    else none
  | _ => none

end Decimal

end TypedConfig

import TypedConfig.Decimal.Basic

/-!
# The shortest decimal that reads back

The reals that round to the double `m * 2 ^ q` form an interval, whose ends belong to it when `m`
is even. `shortest` takes the coarsest power of ten that has a multiple in the interval; the
multiple is one of the two neighbours of the double, the nearer one if both are inside.
-/

namespace TypedConfig.Decimal

/-- Which of two equally near neighbours is taken. -/
inductive Tie
  | up
  | even
deriving DecidableEq, Repr

/-- Four times the numerators, over one common denominator, of a double and of the ends of its
interval. -/
structure Interval where
  low : Nat
  value : Nat
  high : Nat
  denominator : Nat
  closed : Bool

namespace Interval

/-- The interval of `m * 2 ^ q`. Below a power of two the next double is only half as far, except
at the bottom of the range. -/
def of (m : Nat) (q : Int) : Interval :=
  let below := if m = 4503599627370496 ∧ -1074 < q then 1 else 2
  let unit := Nat.pow 2 q.toNat
  { low := (4 * m - below) * unit
    value := 4 * m * unit
    high := (4 * m + 2) * unit
    denominator := 4 * Nat.pow 2 (-q).toNat
    closed := m % 2 == 0 }

/-- The multiple of `10 ^ p` to take, as its factor, if a neighbour of the value on that grid lies
in the interval. -/
def gridPoint (i : Interval) (tie : Tie) (p : Int) : Option Nat :=
  let up := Nat.pow 10 (-p).toNat
  let step := i.denominator * Nat.pow 10 p.toNat
  let floor := i.value * up / step
  let below := floor * step
  let above := below + step
  let hasBelow := if i.closed then i.low * up ≤ below else i.low * up < below
  let hasAbove := if i.closed then above ≤ i.high * up else above < i.high * up
  let twice := 2 * (i.value * up - below)
  if hasBelow ∧ hasAbove then
    if twice < step then some floor
    else if step < twice then some (floor + 1)
    else match tie with
      | .up => some (floor + 1)
      | .even => some (if floor % 2 = 0 then floor else floor + 1)
  else if hasBelow then some floor
  else if hasAbove then some (floor + 1)
  else none

/-- The first hit on the grids `10 ^ (finest + k)`, `10 ^ (finest + k - 1)`, … -/
def search (i : Interval) (tie : Tie) (finest : Int) : Nat → Decimal
  | 0 => ⟨(i.gridPoint tie finest).getD 0, finest⟩
  | k + 1 =>
    match i.gridPoint tie (finest + (k + 1)) with
    | some f => ⟨f, finest + (k + 1)⟩
    | none => search i tie finest k

end Interval

/-- The decimal with the fewest digits that reads back as `m * 2 ^ q`, and of those the nearest.
On the grid `10 ^ (min q 0)` the double itself is a point, so the search ends there at the
latest; it starts above the highest digit. -/
def shortest (tie : Tie) (m : Nat) (q : Int) : Decimal :=
  let i := Interval.of m q
  let finest := min q 0
  let top : Int := (Nat.toDigits 10 (i.value / i.denominator)).length
  i.search tie finest (top - finest).toNat

end TypedConfig.Decimal

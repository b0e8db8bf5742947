import TypedConfig.Expression.Basic

/-!
# Arithmetic

Sums, differences, products and quotients of doubles, with a minus sign in front of a factor.
Dividing by zero is an error, whichever the sign of the zero. A number has digits with an optional
point after, among or before them, and an optional exponent.
-/

namespace TypedConfig.Expression.Arithmetic

open Text

/-- The signs of arithmetic. -/
inductive Sign
  | plus
  | minus
  | times
  | over
deriving DecidableEq, Repr

/-- Quotients; the divisor must not be zero. -/
def divide (x y : Float) : Except ParseError Float :=
  if y == 0 then .error .divisionByZero else .ok (x / y)

/-- The language of arithmetic. -/
def language : Language Float Sign where
  unary
    | .minus => some fun x => -x
    | _ => none
  tight
    | .times => some fun x y => .ok (x * y)
    | .over => some divide
    | _ => none
  loose
    | .plus => some fun x y => x + y
    | .minus => some fun x y => x - y
    | _ => none
  operandFault := .numberExpected
  closingFault := .closingUnexpected

/-! ### Tokens -/

/-- Blanks between tokens. -/
def isSpace (c : Char) : Bool := c == ' ' || c == '\t' || c == '\r' || c == '\n'

/-- The token that is a single character. -/
def sign? : Char → Option (Token Float Sign)
  | '+' => some (.operator .plus)
  | '-' => some (.operator .minus)
  | '*' => some (.operator .times)
  | '/' => some (.operator .over)
  | '(' => some .opening
  | ')' => some .closing
  | _ => none

/-- The exponent that a text starts with, and the rest. Without digits there is none. -/
def splitExponent : List Char → Int × List Char
  | [] => (0, [])
  | c :: cs =>
    if c = 'e' ∨ c = 'E' then
      let (negative, ds) := splitSign cs
      let (run, rest) := splitDigits ds
      if run.isEmpty then (0, c :: cs)
      else
        let n : Int := Nat.ofDigitChars 10 run 0
        (if negative then -n else n, rest)
    else (0, c :: cs)

/-- The digits after a point that a text starts with, and the rest. -/
def splitFraction : List Char → List Char × List Char
  | '.' :: ds => splitDigits ds
  | cs => ([], cs)

/-- The longest number that a text starts with, and the rest. -/
def splitNumber? (cs : List Char) : Option (Decimal × List Char) :=
  let (whole, cs) := splitDigits cs
  let (fraction, cs) := splitFraction cs
  if whole.isEmpty && fraction.isEmpty then none
  else
    let (e, rest) := splitExponent cs
    some (⟨Nat.ofDigitChars 10 (whole ++ fraction) 0, e - fraction.length⟩, rest)

theorem length_splitDigits (cs : List Char) :
    (splitDigits cs).1.length + (splitDigits cs).2.length = cs.length := by
  rw [← List.length_append, splitDigits_append]

theorem length_splitExponent_le (cs : List Char) : (splitExponent cs).2.length ≤ cs.length := by
  cases cs with
  | nil => simp [splitExponent]
  | cons c cs =>
    have hsign := length_splitSign_le cs
    have hdigits := length_splitDigits (splitSign cs).2
    simp only [splitExponent]
    split
    · split
      · simp
      · simp only [List.length_cons]; omega
    · simp

theorem length_splitFraction_le (cs : List Char) :
    (splitFraction cs).1.length + (splitFraction cs).2.length ≤ cs.length := by
  unfold splitFraction
  split
  · rename_i ds
    have := length_splitDigits ds
    simp only [List.length_cons]; omega
  · simp

theorem length_lt_of_splitNumber? {cs rest : List Char} {d : Decimal}
    (h : splitNumber? cs = some (d, rest)) : rest.length < cs.length := by
  have hwhole := length_splitDigits cs
  have hfraction := length_splitFraction_le (splitDigits cs).2
  have hexponent := length_splitExponent_le (splitFraction (splitDigits cs).2).2
  simp only [splitNumber?] at h
  split at h
  · simp at h
  · rename_i hne
    simp only [Option.some.injEq, Prod.mk.injEq] at h
    rw [h.2] at hexponent
    simp only [Bool.and_eq_true, List.isEmpty_iff, not_and] at hne
    by_cases hw : (splitDigits cs).1 = []
    · have := List.length_pos_iff.2 (hne hw)
      omega
    · have := List.length_pos_iff.2 hw
      omega

/-- The tokens of a text that starts at a position. -/
def tokensFrom (position : Nat) : List Char → Except ParseError (List (Nat × Token Float Sign))
  | [] => .ok []
  | c :: cs =>
    if isSpace c then tokensFrom (position + 1) cs
    else match sign? c with
      | some token => do return (position, token) :: (← tokensFrom (position + 1) cs)
      | none =>
        match _h : splitNumber? (c :: cs) with
        | some (d, rest) => do
          let next := position + ((c :: cs).length - rest.length)
          return (position, .operand d.toFloat) :: (← tokensFrom next rest)
        | none => .error (.malformed position (.unexpectedInput c))
termination_by cs => cs.length
decreasing_by
  · simp
  · simp
  · exact length_lt_of_splitNumber? ‹_›

/-- The value of an arithmetic expression. -/
def evaluate (text : String) : Except ParseError Float := do
  let cs := text.toList
  Expression.evaluate language (byteLength cs) (← tokensFrom 0 cs)

/-- The value of an arithmetic expression that must be a signed 64-bit word. The bounds are doubles,
and the greatest word is rounded up to one that is no word any more. -/
def evaluateInteger (text : String) : Except ParseError Int64 := do
  let x ← evaluate text
  match Decimal.integer? x with
  | none => .error (.nonIntegral x)
  | some n =>
    if x < Decimal.floatOfInt Int64.minValue.toInt ∨ Decimal.floatOfInt Int64.maxValue.toInt ≤ x then
      .error (.outOfRange x)
    else .ok (.ofIntClamp n)

end TypedConfig.Expression.Arithmetic

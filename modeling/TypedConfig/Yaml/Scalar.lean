import TypedConfig.Json.Token

/-!
# YAML scalars

A quoted scalar is a text. What a plain one is depends on how it is written: nothing and the
spellings of null are null, the spellings of the truth values are those, numerals are numbers, and
everything else is a text.
-/

namespace TypedConfig.Yaml

/-- A scalar: its text, and whether it was written without quotes. -/
structure Scalar where
  text : List Char
  plain : Bool
deriving DecidableEq, Repr

/-- What stands where a scalar may stand and nothing is written. -/
def Scalar.empty : Scalar := ⟨[], true⟩

/-- The spellings of null. -/
def nulls : List String := ["", "~", "null", "Null", "NULL"]

/-- The spellings of the truth values. -/
def truth? (s : String) : Option Bool :=
  if s ∈ ["true", "True", "TRUE"] then some true
  else if s ∈ ["false", "False", "FALSE"] then some false
  else none

/-- The value of a digit in one of the bases up to sixteen. -/
def digit? (base : Nat) (c : Char) : Option Nat := (Json.hexDigit? c).filter (· < base)

/-- The number that a non-empty run of digits stands for. -/
def natural? (base : Nat) : List Char → Option Nat
  | [] => none
  | cs => cs.foldlM (fun n c => (digit? base c).map (base * n + ·)) 0

/-- Digits with a leading zero are a text. -/
def hasLeadingZero (digits : List Char) : Bool :=
  digits.length > 1 && digits.head? == some '0' && digits.all Char.isDigit

/-- A numeral without a sign: in base ten, or in the base that its start names. -/
def unsigned? : List Char → Option Nat
  | '0' :: 'x' :: cs => natural? 16 cs
  | '0' :: 'o' :: cs => natural? 8 cs
  | '0' :: 'b' :: cs => natural? 2 cs
  | cs => if hasLeadingZero cs then none else natural? 10 cs

/-- The magnitude of the least signed number of 128 bits. -/
def signLimit : Nat := 170141183460469231731687303715884105728

/-- The whole number that a text stands for. Numerals beyond 128 bits, signed or not, are not whole
numbers. -/
def whole? (cs : List Char) : Option Int :=
  let (negative, ds) := Text.splitSign cs
  match unsigned? ds with
  | none => none
  | some n =>
    if negative then if n ≤ signLimit then some (-(n : Int)) else none
    else if n < 2 * signLimit then some n else none

/-- The decimal that digits with a point and an exponent stand for; digits are needed on one side of
the point only. -/
def decimal? (cs : List Char) : Option Decimal := do
  let (whole, cs) := Text.splitDigits cs
  let (fraction, cs) := match cs with
    | '.' :: cs => Text.splitDigits cs
    | cs => ([], cs)
  if whole.isEmpty && fraction.isEmpty then none
  let mantissa := Nat.ofDigitChars 10 (whole ++ fraction) 0
  match cs with
  | [] => some ⟨mantissa, -fraction.length⟩
  | c :: cs =>
    if c ≠ 'e' ∧ c ≠ 'E' then none
    else
      let e ← Text.integer? cs
      some ⟨mantissa, e - fraction.length⟩

/-- The spellings of infinity and of what is no number, which documents have no values for. -/
def isNotFinite (cs : List Char) : Bool :=
  String.ofList (Text.splitSign cs).2 ∈ [".inf", ".Inf", ".INF"] ||
    String.ofList cs ∈ [".nan", ".NaN", ".NAN"]

/-- The finite double that a text stands for. -/
def double? (cs : List Char) : Option Json.Number :=
  let (negative, ds) := Text.splitSign cs
  if hasLeadingZero ds then none
  else (decimal? ds).bind fun d => Json.Number.ofFloat? (if negative then -d.toFloat else d.toFloat)

/-- The document that a plain text stands for. A whole number that fits neither of the 64-bit words
has none. -/
def plain? (cs : List Char) : Option Json :=
  let s := String.ofList cs
  if s ∈ nulls then some .null
  else
    match truth? s, whole? cs with
    | some b, _ => some (.bool b)
    | none, some n => (Json.Number.ofInt? n).map .number
    | none, none =>
      if isNotFinite cs then some .null
      else
        match double? cs with
        | some x => some (.number x)
        | none => some (.string s)

/-- The document that a scalar stands for. -/
def Scalar.toJson? (s : Scalar) : Option Json :=
  if s.plain then plain? s.text else some (.string (String.ofList s.text))

end TypedConfig.Yaml

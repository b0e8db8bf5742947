import TypedConfig.Text.Blank

/-!
# Numerals

Reading and writing whole numbers in base ten. `natural?` takes digits alone; `index?` and
`int64?` take a sign too and are bounded by the word they stand for.
-/

namespace TypedConfig.Text

/-- The digits of a natural number, most significant first. -/
def digits (n : Nat) : List Char := Nat.toDigits 10 n

/-- The numeral of an integer. -/
def numeral (n : Int) : String :=
  String.ofList (if n < 0 then '-' :: digits n.natAbs else digits n.natAbs)

/-- The number that a non-empty run of ASCII digits stands for. -/
def natural? (cs : List Char) : Option Nat :=
  if !cs.isEmpty && cs.all Char.isDigit then some (Nat.ofDigitChars 10 cs 0) else none

/-- The digits that a text starts with, and the rest. -/
def splitDigits (cs : List Char) : List Char × List Char :=
  (cs.takeWhile Char.isDigit, cs.dropWhile Char.isDigit)

theorem splitDigits_append (cs : List Char) : (splitDigits cs).1 ++ (splitDigits cs).2 = cs :=
  List.takeWhile_append_dropWhile

/-- Whether a text starts with a minus sign, and the rest after one sign of either kind. -/
def splitSign : List Char → Bool × List Char
  | '-' :: cs => (true, cs)
  | '+' :: cs => (false, cs)
  | cs => (false, cs)

theorem length_splitSign_le (cs : List Char) : (splitSign cs).2.length ≤ cs.length := by
  unfold splitSign
  split <;> simp

/-- The number that digits stand for, after one optional plus or minus sign. -/
def integer? (cs : List Char) : Option Int :=
  let (negative, ds) := splitSign cs
  (natural? ds).map fun n => if negative then -(n : Int) else n

/-- A position in a list: a 64-bit word, in digits after an optional plus sign. -/
def index? (s : String) : Option Nat :=
  match s.toList with
  | '-' :: _ => none
  | cs => ((integer? cs).map Int.toNat).filter (· < 18446744073709551616)

/-- A number as a signed 64-bit word, if it fits. -/
def signedWord? (n : Int) : Option Int64 :=
  if -9223372036854775808 ≤ n ∧ n < 9223372036854775808 then some (Int64.ofInt n) else none

@[simp] theorem signedWord?_toInt (n : Int64) : signedWord? n.toInt = some n := by
  have low := n.le_toInt
  have high := n.toInt_lt
  rw [signedWord?, if_pos (by omega), Int64.ofInt_toInt]

/-- A signed 64-bit word in digits after an optional sign. -/
def int64? (cs : List Char) : Option Int64 := (integer? cs).bind signedWord?

/-- An unsigned 32-bit word in ASCII digits. -/
def word32? (cs : List Char) : Option Nat := (natural? cs).filter (· < 4294967296)

theorem natural?_digits (n : Nat) : natural? (digits n) = some n := by
  have hd : (digits n).all Char.isDigit = true :=
    List.all_eq_true.2 fun c hc => Nat.isDigit_of_mem_toDigits (by decide) (by decide) hc
  have hne : (digits n).isEmpty = false := by
    simp [digits, Nat.toDigits_ne_nil]
  rw [natural?, hd, hne]
  simp [digits, Nat.ofDigitChars_ten_toDigits]

end TypedConfig.Text

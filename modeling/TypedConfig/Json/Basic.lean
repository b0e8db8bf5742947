import TypedConfig.Decimal.Basic
import TypedConfig.Text.Numeral

/-!
# JSON documents

Objects keep the order of their entries. A number is a whole number of 64 bits, signed or not, or
a finite double; which one it is depends on how it was written.
-/

namespace TypedConfig

/-- A JSON number. -/
inductive Json.Number
  | whole (n : Int) (inRange : -9223372036854775808 ≤ n ∧ n < 18446744073709551616)
  | double (x : Float) (finite : x.isFinite = true)
deriving DecidableEq

/-- A JSON document. -/
inductive Json
  | null
  | bool (b : Bool)
  | number (n : Json.Number)
  | string (s : String)
  | array (items : List Json)
  | object (entries : List (String × Json))

namespace Json

/-- The number as a signed 64-bit word, if it is one. -/
def Number.toInt64? : Number → Option Int64
  | whole n _ => Text.signedWord? n
  | double .. => none

/-- The double nearest to a number. -/
def Number.toFloat : Number → Float
  | whole n _ => Decimal.floatOfInt n
  | double x _ => x

/-- A whole number as a JSON number, if it has 64 bits at most, signed or not. -/
def Number.ofInt? (n : Int) : Option Number :=
  if h : -9223372036854775808 ≤ n ∧ n < 18446744073709551616 then some (.whole n h) else none

/-- A double as a JSON number, if it is finite. -/
def Number.ofFloat? (x : Float) : Option Number :=
  if h : x.isFinite = true then some (.double x h) else none

/-- The value under a key of an object or at a position of an array. -/
def child? : Json → String → Option Json
  | object entries, key => entries.lookup key
  | array items, key => (Text.index? key).bind fun i => items[i]?
  | _, _ => none

/-- The value that is reached by steps from a document. -/
def descend? (j : Json) : List String → Option Json
  | [] => some j
  | part :: parts => (j.child? part).bind fun c => c.descend? parts

end Json

end TypedConfig

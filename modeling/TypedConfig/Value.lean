import TypedConfig.Calendar.Written
import TypedConfig.Json.Printer
import TypedConfig.Kind

/-!
# Typed values

What a configuration resolves to. Dicts keep the order of their entries, but the order does not
matter for equality (`Value.same`). `Value.text` is the text that a reference to the value stands
for, `Value.toJson` the document that is written in the end.
-/

namespace TypedConfig

open Calendar

/-- A typed configuration value. -/
inductive Value
  | null
  | bool (b : Bool)
  | integer (n : Int64)
  | float (x : Float)
  | string (s : String)
  | date (d : Date)
  | dateTime (t : DateTime)
  | list (items : List Value)
  | dict (entries : List (String × Value))

/-- The kind of a JSON document. -/
def Json.kind : Json → Kind
  | .null => .null
  | .bool _ => .boolean
  | .number _ => .number
  | .string _ => .string
  | .array _ => .list
  | .object _ => .dict

namespace Value

/-- The kind of a value. -/
def kind : Value → Kind
  | null => .null
  | bool _ => .boolean
  | integer _ => .integer
  | float _ => .float
  | string _ => .string
  | date _ => .date
  | dateTime _ => .dateTime
  | list _ => .list
  | dict _ => .dict

/-- The value under a key of a dict or at a position of a list. -/
def child? : Value → String → Option Value
  | dict entries, key => entries.lookup key
  | list items, key => (Text.index? key).bind fun i => items[i]?
  | _, _ => none

/-- The value that is reached by steps from a value. -/
def descend? (v : Value) : List String → Option Value
  | [] => some v
  | part :: parts => (v.child? part).bind fun c => c.descend? parts

/-! ### From and to JSON -/

/-- A JSON number as it is: an integer if it fits a signed word, else a double. -/
def ofNumber (n : Json.Number) : Value :=
  match n.toInt64? with
  | some i => integer i
  | none => float n.toFloat

mutual

/-- A JSON document as a value, nothing in it being parsed. -/
def ofJson : Json → Value
  | .null => null
  | .bool b => bool b
  | .number n => ofNumber n
  | .string s => string s
  | .array items => list (ofJsonItems items)
  | .object entries => dict (ofJsonEntries entries)

/-- The items of an array as values. -/
def ofJsonItems : List Json → List Value
  | [] => []
  | j :: js => ofJson j :: ofJsonItems js

/-- The entries of an object as values. -/
def ofJsonEntries : List (String × Json) → List (String × Value)
  | [] => []
  | (k, j) :: js => (k, ofJson j) :: ofJsonEntries js

end

/-- The JSON number of a word. -/
def numberOfInt64 (n : Int64) : Json.Number :=
  .whole n.toInt ⟨by have := n.le_toInt; omega, by have := n.toInt_lt; omega⟩

mutual

/-- The document of a value: dates are strings, what is not finite is null. -/
def toJson : Value → Json
  | null => .null
  | bool b => .bool b
  | integer n => .number (numberOfInt64 n)
  | float x => if h : x.isFinite = true then .number (.double x h) else .null
  | string s => .string s
  | date d => .string d.text
  | dateTime t => .string t.text
  | list items => .array (toJsonItems items)
  | dict entries => .object (toJsonEntries entries)

/-- The items of a list as documents. -/
def toJsonItems : List Value → List Json
  | [] => []
  | v :: vs => toJson v :: toJsonItems vs

/-- The entries of a dict as documents. -/
def toJsonEntries : List (String × Value) → List (String × Json)
  | [] => []
  | (k, v) :: vs => (k, toJson v) :: toJsonEntries vs

end

/-! ### Text -/

/-- The text of a value: scalars in their natural form, containers as JSON. -/
def text : Value → String
  | null => "null"
  | bool b => if b then "true" else "false"
  | integer n => Text.numeral n.toInt
  | float x => Decimal.pointedText x
  | string s => s
  | date d => d.text
  | dateTime t => t.text
  | v => v.toJson.compact

/-! ### Equality -/

/-- Equality of doubles as values: all that is not a number is equal, and the zeros are. -/
def sameFloat (x y : Float) : Bool := x == y || (x.isNaN && y.isNaN)

mutual

/-- Equality of values: lists item by item, dicts key by key in any order. -/
def same : Value → Value → Bool
  | null, null => true
  | bool a, bool b => a == b
  | integer a, integer b => a == b
  | float a, float b => sameFloat a b
  | string a, string b => a == b
  | date a, date b => a == b
  | dateTime a, dateTime b => a == b
  | list as, list bs => sameItems as bs
  | dict as, dict bs => as.length == bs.length && sameEntries as bs
  | _, _ => false

/-- Whether two lists are equal item by item. -/
def sameItems : List Value → List Value → Bool
  | [], [] => true
  | a :: as, b :: bs => same a b && sameItems as bs
  | _, _ => false

/-- Whether each entry has an equal one under its key. -/
def sameEntries : List (String × Value) → List (String × Value) → Bool
  | [], _ => true
  | (k, a) :: as, bs =>
    (match bs.lookup k with
      | some b => same a b
      | none => false) && sameEntries as bs

end

end Value

end TypedConfig

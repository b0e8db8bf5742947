import TypedConfig.DateExpr.Reader
import TypedConfig.Expression.Arithmetic
import TypedConfig.Expression.Logic
import TypedConfig.Schema.Basic

/-!
# Leaf parsers

A leaf parser turns the text of a leaf into a value. Each leaf type has a parser of its own, which
may be overridden.
-/

namespace TypedConfig

/-- A function from texts to values. -/
abbrev LeafParser := String → Except ParseError Value

namespace LeafParser

/-- A numeral, exactly, or else an arithmetic expression with a whole result. -/
def integer : LeafParser := fun text =>
  match Text.int64? (Text.trim text.toList) with
  | some n => .ok (.integer n)
  | none => return .integer (← Expression.Arithmetic.evaluateInteger text)

/-- An arithmetic expression. -/
def float : LeafParser := fun text => return .float (← Expression.Arithmetic.evaluate text)

/-- A logical expression. -/
def boolean : LeafParser := fun text => return .bool (← Expression.Logic.evaluate text)

/-- A date expression, for its date. -/
def date : LeafParser := fun text => return .date (← DateExpr.parseDate text)

/-- A date expression with an optional time of day. -/
def dateTime : LeafParser := fun text => return .dateTime (← DateExpr.parseDateTime text)

/-- Any text, as it is. -/
def string : LeafParser := fun text => .ok (.string text)

/-- The parser that a leaf type has by itself. -/
def builtin : LeafType → LeafParser
  | .scalar .string => string
  | .scalar .integer => integer
  | .scalar .float => float
  | .scalar .boolean => boolean
  | .scalar .date => date
  | .scalar .dateTime => dateTime
  | .any => string

end LeafParser

/-- The parsers that take the place of the built-in ones. -/
structure Parsers where
  override? : LeafType → Option LeafParser

namespace Parsers

/-- No overrides. -/
def none : Parsers := ⟨fun _ => Option.none⟩

/-- One override more, or in place of an earlier one. -/
def insert (ps : Parsers) (type : LeafType) (parser : LeafParser) : Parsers :=
  ⟨fun t => if t = type then some parser else ps.override? t⟩

/-- The leaf types with an override, in order of declaration. -/
def types (ps : Parsers) : List LeafType := LeafType.all.filter fun t => (ps.override? t).isSome

/-- Whether there are no overrides. -/
def isEmpty (ps : Parsers) : Bool := ps.types.isEmpty

/-- The parser of a leaf type. -/
def get (ps : Parsers) (type : LeafType) : LeafParser :=
  (ps.override? type).getD (LeafParser.builtin type)

/-- The name of a leaf type in the description of overrides. -/
def label : LeafType → String
  | .scalar .string => "String"
  | .scalar .integer => "Integer"
  | .scalar .float => "Float"
  | .scalar .boolean => "Boolean"
  | .scalar .date => "Date"
  | .scalar .dateTime => "DateTime"
  | .any => "Any"

/-- A description that names the overridden types. -/
def describe (ps : Parsers) : String :=
  "Parsers \x7b overrides: [" ++ ", ".intercalate (ps.types.map label) ++ "] \x7d"

@[simp] theorem get_insert_self (ps : Parsers) (type : LeafType) (parser : LeafParser) :
    (ps.insert type parser).get type = parser := by simp [insert, get]

theorem get_insert_of_ne {ps : Parsers} {type t : LeafType} {parser : LeafParser} (h : t ≠ type) :
    (ps.insert type parser).get t = ps.get t := by simp [insert, get, h]

end Parsers

end TypedConfig

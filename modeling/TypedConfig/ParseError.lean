import TypedConfig.Decimal.Layout
import TypedConfig.Text.Quoted

/-!
# Errors of leaf parsers

Causes and their wording. Positions are byte offsets into the text that was parsed.
-/

namespace TypedConfig

open Text

/-- What can be wrong with the form of an expression. -/
inductive ExpressionFault
  | unexpectedInput (c : Char)
  | unknownWord (word : List Char)
  | nestedTooDeeply
  | numberExpected
  | truthExpected
  | endUnexpected
  | closingExpected
  | closingUnexpected
  | trailingInput
deriving DecidableEq, Repr

/-- The wording of a fault. -/
def ExpressionFault.message : ExpressionFault → String
  | unexpectedInput c => "unexpected input " ++ quoted c.toString
  | unknownWord w => "unknown word " ++ quoted (String.ofList w)
  | nestedTooDeeply => "expression nested too deeply"
  | numberExpected => "expected a number, '(' or '-'"
  | truthExpected => "expected true, false, 'not' or '('"
  | endUnexpected => "unexpected end of expression"
  | closingExpected => "unbalanced parentheses: expected ')'"
  | closingUnexpected => "unbalanced parentheses: unexpected ')'"
  | trailingInput => "unexpected trailing input"

/-- What a date expression is read for. -/
inductive DateTarget
  | date
  | dateTime
deriving DecidableEq, Repr

/-- The name of a target in messages. -/
def DateTarget.name : DateTarget → String
  | date => "date"
  | dateTime => "datetime"

/-- What can be wrong with a date expression. -/
inductive DateFault
  | nestedTooDeeply (target : DateTarget)
  | unreadable (text : List Char) (target : DateTarget)
  | magnitude (digits : List Char)
  | unknownUnit (word : List Char)
  | weekday (word : List Char)
  | weekdaysMissing
  | weekdayUnreachable
  | timeOfDay (word : List Char)
deriving DecidableEq, Repr

/-- The wording of a fault. -/
def DateFault.message : DateFault → String
  | nestedTooDeeply target => target.name ++ " expression nested too deeply"
  | unreadable text target =>
    "cannot parse " ++ quoted (String.ofList text) ++ " as a " ++ target.name
  | magnitude ds => "magnitude " ++ quoted (String.ofList ds) ++ " is out of range"
  | unknownUnit word => "unknown unit " ++ quoted (String.ofList word)
  | weekday word => "invalid day of week " ++ quoted (String.ofList word)
  | weekdaysMissing => "expected at least one day of week"
  | weekdayUnreachable => "no matching day of week"
  | timeOfDay word => "invalid time of day " ++ quoted (String.ofList word)

/-- Why a leaf parser fails. A parser of one's own may reject a text with any message. -/
inductive ParseError
  | malformed (position : Nat) (fault : ExpressionFault)
  | divisionByZero
  | nonIntegral (x : Float)
  | outOfRange (x : Float)
  | date (fault : DateFault)
  | rejected (message : String)
deriving DecidableEq

/-- The message of an error. -/
def ParseError.message : ParseError → String
  | malformed position fault =>
    "syntax error at position " ++ numeral position ++ ": " ++ fault.message
  | divisionByZero => "division by zero"
  | nonIntegral x => "non-integral result: " ++ Decimal.plainText x
  | outOfRange x => "result out of range: " ++ Decimal.plainText x
  | date fault => fault.message
  | rejected message => message

end TypedConfig

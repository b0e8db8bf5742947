/-!
# Kinds of data

The names that messages use for kinds of JSON documents and of typed values. A JSON document is of
the kind `null`, `boolean`, `number`, `string`, `list` or `dict`.
-/

namespace TypedConfig

/-- A kind of JSON document or typed value. -/
inductive Kind
  | null
  | boolean
  | number
  | integer
  | float
  | string
  | date
  | dateTime
  | list
  | dict
deriving DecidableEq, Repr

/-- The name of a kind in messages. -/
def Kind.name : Kind → String
  | null => "null"
  | boolean => "boolean"
  | number => "number"
  | integer => "integer"
  | float => "float"
  | string => "string"
  | date => "date"
  | dateTime => "datetime"
  | list => "list"
  | dict => "dict"

end TypedConfig

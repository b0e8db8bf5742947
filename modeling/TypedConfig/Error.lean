import TypedConfig.ParseError
import TypedConfig.Schema.Fault
import TypedConfig.Template

/-!
# Errors

Everything that can end a resolution, with the place that it concerns. The place of a schema error
is in the definition, that of the others in the configuration.
-/

namespace TypedConfig

open Text

/-- Why a schema is refused or a configuration does not resolve. -/
inductive Error
  | schema (error : SchemaError)
  | shape (error : ShapeError)
  | externals (found : Kind)
  | reservedVariable (name : String)
  | unknownReference (place : Keypath) (name : String)
  | circularReference (place : Keypath) (cycle : List Keypath)
  | parse (place : Keypath) (raw substituted : String) (source : ParseError)
  | template (place : Keypath) (raw : String) (position : Nat) (fault : Template.Fault)

/-- The classes of errors. -/
inductive ErrorKind
  | schema
  | type
  | missingRequiredKey
  | unknownKey
  | unknownReference
  | circularReference
  | parse
  | template
  | reservedVariable
deriving DecidableEq, Repr

/-- The name of a class. -/
def ErrorKind.name : ErrorKind → String
  | schema => "schema"
  | type => "type"
  | missingRequiredKey => "missing_required_key"
  | unknownKey => "unknown_key"
  | unknownReference => "unknown_reference"
  | circularReference => "circular_reference"
  | parse => "parse"
  | template => "template"
  | reservedVariable => "reserved_variable"

namespace Error

/-- The class of an error. -/
def kind : Error → ErrorKind
  | schema _ => .schema
  | shape (.mismatch ..) => .type
  | shape (.missingKey _) => .missingRequiredKey
  | shape (.unknownKey _) => .unknownKey
  | externals _ => .type
  | reservedVariable _ => .reservedVariable
  | unknownReference .. => .unknownReference
  | circularReference .. => .circularReference
  | parse .. => .parse
  | template .. => .template

/-- The place that an error concerns. -/
def place : Error → Keypath
  | schema e => e.place
  | shape e => e.place
  | externals _ => .root
  | reservedVariable name => Keypath.root.key name
  | unknownReference place _ => place
  | circularReference place _ => place
  | parse place _ _ _ => place
  | template place _ _ _ => place

/-- The message of an error. -/
def message : Error → String
  | schema e => e.message
  | shape e => e.message
  | externals found => ShapeError.mismatchMessage .root "dict of external variables" found
  | reservedVariable name =>
    "external variables cannot define `" ++ name ++
      "`: the name is reserved for self references"
  | unknownReference place name => "unknown reference `" ++ name ++ "` in `" ++ place.text ++ "`"
  | circularReference _ cycle =>
    "circular reference: " ++ " -> ".intercalate (cycle.map Keypath.text)
  | parse place raw substituted source =>
    "cannot parse `" ++ place.text ++ "`: " ++ source.message ++ " (raw: " ++ quoted raw ++
      ", substituted: " ++ quoted substituted ++ ")"
  | template place raw position fault =>
    "malformed template in `" ++ place.text ++ "` at position " ++ numeral position ++ ": " ++
      fault.message ++ " (raw: " ++ quoted raw ++ ")"

end Error

end TypedConfig

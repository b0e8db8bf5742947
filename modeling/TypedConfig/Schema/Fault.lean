import TypedConfig.Schema.Basic

/-!
# Faults of schema definitions

A definition has seven fields. What can be wrong with it is either its form, which is found while it
is read, or what it says; a default can also have a shape of its own that does not fit.
-/

namespace TypedConfig

open Text

/-- The fields of a definition, in order. -/
inductive Field
  | type
  | requiredKeys
  | optionalKeys
  | extraKeysSchema
  | elementSchema
  | nullable
  | default
deriving DecidableEq, Repr

namespace Field

/-- All fields, in order. -/
def all : List Field :=
  [type, requiredKeys, optionalKeys, extraKeysSchema, elementSchema, nullable, default]

/-- The key of a field. -/
def name : Field → String
  | type => "type"
  | requiredKeys => "required_keys"
  | optionalKeys => "optional_keys"
  | extraKeysSchema => "extra_keys_schema"
  | elementSchema => "element_schema"
  | nullable => "nullable"
  | default => "default"

/-- The field of a key. -/
def ofName? (s : String) : Option Field := all.find? fun f => f.name == s

/-- A key between backticks. -/
def ticked (name : String) : String := "`" ++ name ++ "`"

end Field

/-- A configuration, or the default of a key, does not have the shape that its schema asks for. -/
inductive ShapeError
  | mismatch (place : Keypath) (expected found : Kind)
  | missingKey (place : Keypath)
  | unknownKey (place : Keypath)
deriving DecidableEq, Repr

namespace ShapeError

/-- Where the shape does not fit. -/
def place : ShapeError → Keypath
  | mismatch place _ _ => place
  | missingKey place => place
  | unknownKey place => place

/-- The message that a value of one kind stands where another is expected. -/
def mismatchMessage (place : Keypath) (expected : String) (found : Kind) : String :=
  "type mismatch at `" ++ place.text ++ "`: expected " ++ expected ++ ", found " ++ found.name

/-- The message of an error. -/
def message : ShapeError → String
  | mismatch place expected found => mismatchMessage place expected.name found
  | missingKey place => "missing required key `" ++ place.text ++ "`"
  | unknownKey place =>
    "unexpected key `" ++ place.text ++ "` (no schema entry and no extra_keys_schema)"

end ShapeError

/-- What a definition has to hold at some place. -/
inductive Wanted
  | definition
  | text
  | mapping
  | boolean
deriving DecidableEq, Repr

/-- The phrase for what is wanted. -/
def Wanted.phrase : Wanted → String
  | definition => "struct SchemaDef"
  | text => "a string"
  | mapping => "a map"
  | boolean => "a boolean"

/-- The phrase for a document that stands where another is wanted. -/
def Json.phrase : Json → String
  | .null => "null"
  | .bool b => "boolean `" ++ (if b then "true" else "false") ++ "`"
  | .number (.whole n _) => "integer `" ++ numeral n ++ "`"
  | .number (.double x _) => "floating point `" ++ Decimal.jsonText x ++ "`"
  | .string s => "string " ++ Text.quoted s
  | .array _ => "sequence"
  | .object _ => "map"

/-- What is wrong with a definition. -/
inductive SchemaFault
  | wrongData (found : Json) (wanted : Wanted)
  | typeMissing
  | unknownField (name : String)
  | noElements
  | tooManyElements (count : Nat)
  | defaultMisplaced
  | declaredTwice (name : String)
  | elementMissing
  | unknownType (name : String)
  | fieldMisplaced (field : Field) (type : SchemaType)
  | defaultMismatch (found : Kind) (declared : SchemaType)
  | defaultUnfit (error : ShapeError)
  | defaultNotDate (text : String)
  | defaultNotDateTime (text : String)

/-- The wording of a fault. -/
def SchemaFault.message : SchemaFault → String
  | wrongData found wanted =>
    "invalid type: " ++ found.phrase ++ ", expected " ++ wanted.phrase
  | typeMissing => "missing field " ++ Field.ticked Field.type.name
  | unknownField name =>
    "unknown field " ++ Field.ticked name ++ ", expected one of " ++
      ", ".intercalate (Field.all.map fun f => Field.ticked f.name)
  | noElements => "invalid length 0, expected struct SchemaDef with 7 elements"
  | tooManyElements count =>
    "invalid length " ++ numeral count ++ ", expected fewer elements in array"
  | defaultMisplaced => "`default` is only valid on an optional_keys entry"
  | declaredTwice name => Field.ticked name ++ " is declared both required and optional"
  | elementMissing => "list schema requires `element_schema`"
  | unknownType name => "unrecognized schema type " ++ Text.quoted name
  | fieldMisplaced field type =>
    Field.ticked field.name ++ " is not valid for a " ++ type.name ++ " schema"
  | defaultMismatch found declared =>
    "default " ++ found.name ++ " does not match declared type " ++ declared.name
  | defaultUnfit error =>
    "default does not fit its schema at `" ++ error.place.text ++ "`: " ++ error.message
  | defaultNotDate text => "default " ++ Text.quoted text ++ " is not an ISO date"
  | defaultNotDateTime text => "default " ++ Text.quoted text ++ " is not an ISO datetime"

/-- A fault with its place in the definition. -/
structure SchemaError where
  place : Keypath
  fault : SchemaFault

/-- The message of an error. -/
def SchemaError.message (e : SchemaError) : String :=
  "invalid schema at `" ++ e.place.text ++ "`: " ++ e.fault.message

end TypedConfig

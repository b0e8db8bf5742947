import TypedConfig.Schema.Definition
import TypedConfig.Tree.Build

/-!
# From definitions to schemas

`Schema.ofDefinition` checks what a definition says: which fields go with its type, that no key is
declared twice, and that a default stands with an optional key and fits it. A default of a
container is checked like a configuration and then kept as it is.
-/

namespace TypedConfig.Schema

open Calendar

/-- The value of a default, if it is a literal of the declared type. -/
def defaultOfScalar (type : ScalarType) (raw : Json) : Except SchemaFault Value :=
  let misfit : Except SchemaFault Value :=
    .error (.defaultMismatch raw.kind (.leaf (.scalar type)))
  match type, raw with
  | .string, .string s => .ok (.string s)
  | .integer, .number n =>
    match n.toInt64? with
    | some i => .ok (.integer i)
    | none => misfit
  | .float, .number n => .ok (.float n.toFloat)
  | .boolean, .bool b => .ok (.bool b)
  | .date, .string s =>
    match Date.ofLiteral? s.toList with
    | some d => .ok (.date d)
    | none => .error (.defaultNotDate s)
  | .dateTime, .string s =>
    match DateTime.ofLiteral? s.toList with
    | some t => .ok (.dateTime t)
    | none => .error (.defaultNotDateTime s)
  | _, _ => misfit

/-- The value of a default of a container, if a configuration of that shape would be accepted. -/
def defaultOfContainer (schema : Schema) (raw : Json) : Except SchemaFault Value :=
  match Node.ofConfig schema raw with
  | .ok _ => .ok (Value.ofJson raw)
  | .error e => .error (.defaultUnfit e)

/-- The value of a default under the schema that it is declared with. -/
def defaultValue (schema : Schema) (raw : Json) : Except SchemaFault Value :=
  let misfit : Except SchemaFault Value := .error (.defaultMismatch raw.kind schema.type)
  match raw with
  | .null => if schema.isNullable then .ok .null else misfit
  | _ =>
    match schema, raw with
    | any, _ => .ok (Value.ofJson raw)
    | dict .., .object _ => defaultOfContainer schema raw
    | list .., .array _ => defaultOfContainer schema raw
    | scalar type _, _ => defaultOfScalar type raw
    | _, _ => misfit

/-- A fault at a place, unless `ok` holds. -/
def require (ok : Bool) (place : Keypath) (fault : SchemaFault) : Except SchemaError Unit :=
  if ok then .ok () else .error ⟨place, fault⟩

/-- Refuses a field that does not go with the type. -/
def refuse (present : Bool) (place : Keypath) (field : Field) (type : SchemaType) :
    Except SchemaError Unit :=
  require (!present) (place.key field.name) (.fieldMisplaced field type)

/-- Refuses the fields of dicts. -/
def refuseDictFields (d : Definition) (place : Keypath) (type : SchemaType) :
    Except SchemaError Unit := do
  refuse d.requiredKeys.isSome place .requiredKeys type
  refuse d.optionalKeys.isSome place .optionalKeys type
  refuse d.extraKeysSchema.isSome place .extraKeysSchema type

/-- Refuses a default. -/
def refuseDefault (d : Definition) (place : Keypath) : Except SchemaError Unit :=
  require d.default.isNone place .defaultMisplaced

/-- A fault put at its place. -/
def located {α : Type} (place : Keypath) : Except SchemaFault α → Except SchemaError α
  | .ok a => .ok a
  | .error fault => .error ⟨place, fault⟩

mutual

/-- The schema that a definition describes. -/
def ofDefinition (place : Keypath) : Definition → Except SchemaError Schema
  | { type, requiredKeys, optionalKeys, extraKeysSchema, elementSchema, nullable, default } =>
    let d : Definition :=
      { type, requiredKeys, optionalKeys, extraKeysSchema, elementSchema, nullable, default }
    match SchemaType.ofName? type with
    | none => .error ⟨place.key Field.type.name, .unknownType type⟩
    | some .dict => do
      refuse elementSchema.isSome place .elementSchema .dict
      let required ← ofRequired (place.key Field.requiredKeys.name) requiredKeys
      let optional ← ofOptional (place.key Field.optionalKeys.name) (required.map Prod.fst)
        optionalKeys
      let extra ← ofSole (place.key Field.extraKeysSchema.name) extraKeysSchema
      return dict required optional extra (nullable.getD false)
    | some .list => do
      refuseDictFields d place .list
      match ← ofSole (place.key Field.elementSchema.name) elementSchema with
      | none => throw ⟨place, .elementMissing⟩
      | some element => return list element (nullable.getD false)
    | some (.leaf type) => do
      refuseDictFields d place (.leaf type)
      refuse elementSchema.isSome place .elementSchema (.leaf type)
      match type with
      | .any => return any
      | .scalar type => return scalar type (nullable.getD false)

/-- The schema of a definition that stands alone and has no default. -/
def ofSole (place : Keypath) : Option Definition → Except SchemaError (Option Schema)
  | none => .ok none
  | some d => do
    refuseDefault d place
    return some (← ofDefinition place d)

/-- The schemas of the required keys. -/
def ofRequired (group : Keypath) :
    Option (List (String × Definition)) → Except SchemaError (List (String × Schema))
  | none => .ok []
  | some keys => ofRequiredKeys group keys

/-- The schemas of the required keys, one after the other. -/
def ofRequiredKeys (group : Keypath) :
    List (String × Definition) → Except SchemaError (List (String × Schema))
  | [] => .ok []
  | (k, d) :: keys => do
    let place := group.key k
    refuseDefault d place
    let schema ← ofDefinition place d
    return (k, schema) :: (← ofRequiredKeys group keys)

/-- The schemas and defaults of the optional keys, which must not be among `declared`. -/
def ofOptional (group : Keypath) (declared : List String) :
    Option (List (String × Definition)) →
      Except SchemaError (List (String × Schema × Option Value))
  | none => .ok []
  | some keys => ofOptionalKeys group declared keys

/-- The schemas and defaults of the optional keys, one after the other. -/
def ofOptionalKeys (group : Keypath) (declared : List String) :
    List (String × Definition) → Except SchemaError (List (String × Schema × Option Value))
  | [] => .ok []
  | (k, d) :: keys => do
    let place := group.key k
    require (!declared.contains k) place (.declaredTwice k)
    let schema ← ofDefinition place d
    let default ← d.default.mapM fun raw =>
      located (place.key Field.default.name) (defaultValue schema raw)
    return (k, schema, default) :: (← ofOptionalKeys group declared keys)

end

/-- The schema that a document defines. -/
def ofJson (j : Json) : Except SchemaError Schema := do
  let d ← Definition.ofJson j
  refuseDefault d .root
  ofDefinition .root d

end TypedConfig.Schema

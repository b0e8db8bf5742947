import TypedConfig.Schema.Fault

/-!
# Schema definitions as written

`Definition.ofJson` reads the whole of a definition before it is asked what it means. A definition
is an object of the seven fields, or an array of them in order, with the last ones left out at
will. Null stands for an absent field, but not for an absent type, and as a default it counts. The
first fault in the order of the document is reported.
-/

namespace TypedConfig

/-- A definition: the fields that are there. -/
structure Definition where
  type : String
  requiredKeys : Option (List (String × Definition))
  optionalKeys : Option (List (String × Definition))
  extraKeysSchema : Option Definition
  elementSchema : Option Definition
  nullable : Option Bool
  default : Option Json

/-- The fields of a definition that have been read so far. -/
structure Definition.Draft where
  type : Option String
  requiredKeys : Option (List (String × Definition))
  optionalKeys : Option (List (String × Definition))
  extraKeysSchema : Option Definition
  elementSchema : Option Definition
  nullable : Option Bool
  default : Option Json

namespace Definition

/-- No field at all. -/
def Draft.empty : Draft := ⟨none, none, none, none, none, none, none⟩

/-- The definition of the fields; the type must be among them. -/
def Draft.finish (place : Keypath) (d : Draft) : Except SchemaError Definition :=
  match d.type with
  | none => .error ⟨place, .typeMissing⟩
  | some type => .ok
    { type
      requiredKeys := d.requiredKeys
      optionalKeys := d.optionalKeys
      extraKeysSchema := d.extraKeysSchema
      elementSchema := d.elementSchema
      nullable := d.nullable
      default := d.default }

/-- A string. -/
def readText (place : Keypath) : Json → Except SchemaError String
  | .string s => .ok s
  | j => .error ⟨place, .wrongData j .text⟩

/-- A boolean or null. -/
def readFlag (place : Keypath) : Json → Except SchemaError (Option Bool)
  | .null => .ok none
  | .bool b => .ok (some b)
  | j => .error ⟨place, .wrongData j .boolean⟩

/-- A definition or null, with `definition` to read one. -/
def readOptional (definition : Unit → Except SchemaError Definition) :
    Json → Except SchemaError (Option Definition)
  | .null => .ok none
  | _ => do return some (← definition ())

/-- Reads a field into a draft, with `definition` to read it as a definition and `group` to read it
as a group of keys. -/
def readField (place : Keypath) (draft : Draft) (field : Field) (j : Json)
    (definition : Unit → Except SchemaError Definition)
    (group : Unit → Except SchemaError (Option (List (String × Definition)))) :
    Except SchemaError Draft :=
  match field with
  | .type => do return { draft with type := some (← readText place j) }
  | .requiredKeys => do return { draft with requiredKeys := ← group () }
  | .optionalKeys => do return { draft with optionalKeys := ← group () }
  | .extraKeysSchema => do return { draft with extraKeysSchema := ← readOptional definition j }
  | .elementSchema => do return { draft with elementSchema := ← readOptional definition j }
  | .nullable => do return { draft with nullable := ← readFlag place j }
  | .default => .ok { draft with default := some j }

mutual

/-- Reads a definition. -/
def read (place : Keypath) : Json → Except SchemaError Definition
  | .object entries => do
    let draft ← readEntries place .empty entries
    draft.finish place
  | .array items => do
    if items.isEmpty then throw ⟨place, .noElements⟩
    let draft ← readItems place 0 .empty Field.all items
    if Field.all.length < items.length then throw ⟨place, .tooManyElements items.length⟩
    draft.finish place
  | j => .error ⟨place, .wrongData j .definition⟩

/-- Reads the entries of an object into a draft. -/
def readEntries (place : Keypath) (draft : Draft) :
    List (String × Json) → Except SchemaError Draft
  | [] => .ok draft
  | (k, j) :: entries =>
    match Field.ofName? k with
    | none => .error ⟨place.key k, .unknownField k⟩
    | some field => do
      let p := place.key k
      let draft ← readField p draft field j (fun _ => read p j) (fun _ => readGroup p j)
      readEntries place draft entries

/-- Reads the items of an array into a draft, the first one at a position, as fields in turn. -/
def readItems (place : Keypath) (position : Nat) (draft : Draft) (fields : List Field) :
    List Json → Except SchemaError Draft
  | [] => .ok draft
  | j :: items =>
    match fields with
    | [] => .ok draft
    | field :: fields => do
      let p := place.index position
      let draft ← readField p draft field j (fun _ => read p j) (fun _ => readGroup p j)
      readItems place (position + 1) draft fields items

/-- Reads a group of keys or null. -/
def readGroup (place : Keypath) : Json → Except SchemaError (Option (List (String × Definition)))
  | .null => .ok none
  | .object entries => do return some (← readKeys place entries)
  | j => .error ⟨place, .wrongData j .mapping⟩

/-- Reads the definitions of a group of keys. -/
def readKeys (place : Keypath) :
    List (String × Json) → Except SchemaError (List (String × Definition))
  | [] => .ok []
  | (k, j) :: entries => do
    let d ← read (place.key k) j
    return (k, d) :: (← readKeys place entries)

end

/-- The definition that a document holds. -/
def ofJson (j : Json) : Except SchemaError Definition := read .root j

end Definition

end TypedConfig

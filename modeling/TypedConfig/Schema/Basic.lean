import TypedConfig.Keypath
import TypedConfig.Value

/-!
# Schemas

The types that a configuration is checked against. A dict has required keys, optional keys, each
with or without a typed default, and may admit other keys under one schema for all of them.
-/

namespace TypedConfig

/-- The types of scalars. -/
inductive ScalarType
  | string
  | integer
  | float
  | boolean
  | date
  | dateTime
deriving DecidableEq, Repr

/-- The types of leaves: scalars, and whatever a free-form section holds. -/
inductive LeafType
  | scalar (type : ScalarType)
  | any
deriving DecidableEq, Repr

/-- The kind of the values of a scalar type. -/
def ScalarType.kind : ScalarType → Kind
  | string => .string
  | integer => .integer
  | float => .float
  | boolean => .boolean
  | date => .date
  | dateTime => .dateTime

namespace LeafType

/-- All leaf types, in order of declaration. -/
def all : List LeafType :=
  [scalar .string, scalar .integer, scalar .float, scalar .boolean, scalar .date,
    scalar .dateTime, any]

/-- The name of a leaf type in schemas and messages. -/
def name : LeafType → String
  | scalar type => type.kind.name
  | any => "any"

/-- The leaf type of a name. -/
def ofName? (s : String) : Option LeafType := all.find? fun t => t.name == s

end LeafType

/-- What the type of a schema can be. -/
inductive SchemaType
  | dict
  | list
  | leaf (type : LeafType)
deriving DecidableEq, Repr

namespace SchemaType

/-- The name of a type in schemas and messages. -/
def name : SchemaType → String
  | dict => "dict"
  | list => "list"
  | leaf type => type.name

/-- The type of a name. -/
def ofName? (s : String) : Option SchemaType :=
  if s = "dict" then some dict
  else if s = "list" then some list
  else (LeafType.ofName? s).map leaf

end SchemaType

/-- A schema. -/
inductive Schema
  | dict (required : List (String × Schema)) (optional : List (String × Schema × Option Value))
      (extra : Option Schema) (nullable : Bool)
  | list (element : Schema) (nullable : Bool)
  | scalar (type : ScalarType) (nullable : Bool)
  | any

namespace Schema

/-- Induction on a schema by the schemas that it is made of. -/
@[elab_as_elim] theorem induct {P : Schema → Prop} (any : P any)
    (scalar : ∀ type nullable, P (scalar type nullable))
    (list : ∀ element nullable, P element → P (list element nullable))
    (dict : ∀ required optional extra nullable, (∀ e ∈ required, P e.2) →
      (∀ e ∈ optional, P e.2.1) → (∀ s, extra = some s → P s) →
        P (dict required optional extra nullable)) (schema : Schema) : P schema := by
  refine @Schema.rec P (fun required => ∀ e ∈ required, P e.2)
    (fun optional => ∀ e ∈ optional, P e.2.1) (fun extra => ∀ s, extra = some s → P s)
    (fun e => P e.2) (fun e => P e.2.1) (fun e => P e.1) dict list scalar any ?_ ?_ ?_ ?_ ?_ ?_
    ?_ ?_ ?_ schema
  · exact nofun
  · exact fun _ _ h hs => List.forall_mem_cons.2 ⟨h, hs⟩
  · exact nofun
  · exact fun _ _ h hs => List.forall_mem_cons.2 ⟨h, hs⟩
  · exact nofun
  · rintro schema h _ ⟨⟩
    exact h
  · exact fun _ _ h => h
  · exact fun _ _ h => h
  · exact fun _ _ h => h

/-- Whether null fits the schema. -/
def isNullable : Schema → Bool
  | dict _ _ _ nullable => nullable
  | list _ nullable => nullable
  | scalar _ nullable => nullable
  | any => true

/-- The type of a schema. -/
def type : Schema → SchemaType
  | dict .. => .dict
  | list .. => .list
  | scalar type _ => .leaf (.scalar type)
  | any => .leaf .any

/-- The type of a leaf that holds a whole value of the schema. -/
def leafType : Schema → LeafType
  | scalar type _ => .scalar type
  | _ => .any

/-- The schema of what one step leads to, if the schema admits the step. -/
def child? : Schema → Segment → Option Schema
  | dict required optional extra _, .key k =>
    required.lookup k <|> (optional.lookup k).map Prod.fst <|> extra
  | list element _, .index _ => some element
  | any, _ => some any
  | _, _ => none

/-- The schema that steps lead to. -/
def descend? (s : Schema) : List Segment → Option Schema
  | [] => some s
  | step :: steps => (s.child? step).bind fun c => c.descend? steps

end Schema

end TypedConfig

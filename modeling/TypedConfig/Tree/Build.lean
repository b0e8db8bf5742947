import TypedConfig.Entries
import TypedConfig.Schema.Fault
import TypedConfig.Tree.Basic

/-!
# Building node trees

`Node.build` checks a configuration against a schema and makes its tree. Children follow the
schema, required keys before optional ones, and then come the further keys in the order of the
configuration. A free-form section fits anything.

A schema that is read declares a key of a dict once, but one that is put together by hand may have it
both among the required keys and among the optional ones. `Node.build` makes a child for each
declaration, and either has to fit. In the tree of a configuration (`Node.ofConfig`) the later child
then takes the place of the earlier one (`Node.keyed`).
-/

namespace TypedConfig.Node

/-- A leaf whose value is known. -/
def presetLeaf (place : Keypath) (type : LeafType) (raw : Json) (v : Value) : Node :=
  leaf { place, kind := .typed type, raw, preset := some v }

/-- A leaf that is still to be parsed. -/
def openLeaf (place : Keypath) (type : LeafType) (raw : Json) : Node :=
  leaf { place, kind := .typed type, raw, preset := none }

mutual

/-- The tree of a free-form section. -/
def ofAny (place : Keypath) : Json → Node
  | .object entries => dict place (ofAnyEntries place entries)
  | .array items => list place (ofAnyItems place 0 items)
  | .null => presetLeaf place .any .null .null
  | .bool b => openLeaf place .any (.bool b)
  | .number n => openLeaf place .any (.number n)
  | .string s => openLeaf place .any (.string s)

/-- The children of a free-form object. -/
def ofAnyEntries (place : Keypath) : List (String × Json) → List (String × Node)
  | [] => []
  | (k, j) :: js => (k, ofAny (place.key k) j) :: ofAnyEntries place js

/-- The children of a free-form array, the first one at a position. -/
def ofAnyItems (place : Keypath) (position : Nat) : List Json → List Node
  | [] => []
  | j :: js => ofAny (place.index position) j :: ofAnyItems place (position + 1) js

end

/-- The leaf that stands for a whole container: null if that is allowed, or a sole reference. -/
def standIn? (place : Keypath) (container : Container) (nullable : Bool) : Json → Option Node
  | .null => if nullable then some (presetLeaf place .any .null .null) else none
  | .string s => (Template.soleReference? s).map fun name =>
      leaf { place, kind := .alias container name, raw := .string s, preset := none }
  | _ => none

/-- The tree of a scalar. -/
def ofScalar (place : Keypath) (type : ScalarType) (nullable : Bool) (raw : Json) :
    Except ShapeError Node :=
  match raw with
  | .null =>
    if nullable then .ok (presetLeaf place (.scalar type) .null .null)
    else .error (.mismatch place type.kind .null)
  | .array _ => .error (.mismatch place type.kind raw.kind)
  | .object _ => .error (.mismatch place type.kind raw.kind)
  | _ => .ok (openLeaf place (.scalar type) raw)

/-- The tree of items, each built by `item`, the first one at a position. -/
def ofItems (item : Keypath → Json → Except ShapeError Node) (place : Keypath) :
    (position : Nat) → List Json → Except ShapeError (List Node)
  | _, [] => .ok []
  | position, j :: js => do
    let child ← item (place.index position) j
    return child :: (← ofItems item place (position + 1) js)

/-- The children for the keys that a schema does not declare; `item` builds them, if such keys are
allowed at all. -/
def ofExtra (item : Option (Keypath → Json → Except ShapeError Node)) (place : Keypath) :
    List (String × Json) → Except ShapeError (List (String × Node))
  | [] => .ok []
  | (k, j) :: js =>
    match item with
    | none => .error (.unknownKey (place.key k))
    | some item => do
      let child ← item (place.key k) j
      return (k, child) :: (← ofExtra (some item) place js)

mutual

/-- The tree of a configuration under a schema, with a child for each declaration of a key. -/
def build (schema : Schema) (place : Keypath) (raw : Json) : Except ShapeError Node :=
  match schema with
  | .any => .ok (ofAny place raw)
  | .scalar type nullable => ofScalar place type nullable raw
  | .list element nullable =>
    match standIn? place .list nullable raw with
    | some n => .ok n
    | none =>
      match raw with
      | .array items => do
        return list place (← ofItems (fun p j => build element p j) place 0 items)
      | _ => .error (.mismatch place .list raw.kind)
  | .dict required optional extra nullable =>
    match standIn? place .dict nullable raw with
    | some n => .ok n
    | none =>
      match raw with
      | .object entries => do
        let declared := required.map Prod.fst ++ optional.map Prod.fst
        let requiredChildren ← buildRequired place entries required
        let optionalChildren ← buildOptional place entries optional
        let extraChildren ← ofExtra (buildExtra extra) place
          (entries.filter fun entry => !declared.contains entry.1)
        return dict place (requiredChildren ++ optionalChildren ++ extraChildren)
      | _ => .error (.mismatch place .dict raw.kind)

/-- The children for the required keys. -/
def buildRequired (place : Keypath) (entries : List (String × Json)) :
    List (String × Schema) → Except ShapeError (List (String × Node))
  | [] => .ok []
  | (k, schema) :: required =>
    match entries.lookup k with
    | none => .error (.missingKey (place.key k))
    | some j => do
      let child ← build schema (place.key k) j
      return (k, child) :: (← buildRequired place entries required)

/-- The children for the optional keys; a default takes the place of an absent one. -/
def buildOptional (place : Keypath) (entries : List (String × Json)) :
    List (String × Schema × Option Value) → Except ShapeError (List (String × Node))
  | [] => .ok []
  | (k, schema, default) :: optional =>
    match entries.lookup k, default with
    | some j, _ => do
      let child ← build schema (place.key k) j
      return (k, child) :: (← buildOptional place entries optional)
    | none, some v => do
      let child := presetLeaf (place.key k) schema.leafType .null v
      return (k, child) :: (← buildOptional place entries optional)
    | none, none => .error (.missingKey (place.key k))

/-- How the children for undeclared keys are built. -/
def buildExtra : Option Schema → Option (Keypath → Json → Except ShapeError Node)
  | none => none
  | some schema => some fun p j => build schema p j

end

mutual

/-- The tree in which a dict has one child for each key. -/
def keyed : Node → Node
  | dict place children => dict place (keyedEntries [] children)
  | list place children => list place (keyedItems children)
  | leaf l => leaf l

/-- The children of a dict, added one by one to those that are kept: a child whose key is there
already takes the place of the other one. -/
def keyedEntries (kept : List (String × Node)) : List (String × Node) → List (String × Node)
  | [] => kept
  | (k, child) :: children => keyedEntries (Entries.insert k child.keyed kept) children

/-- The items of a list. -/
def keyedItems : List Node → List Node
  | [] => []
  | child :: children => child.keyed :: keyedItems children

end

/-- The tree of a whole configuration. -/
def ofConfig (schema : Schema) (raw : Json) : Except ShapeError Node := do
  return (← build schema .root raw).keyed

end TypedConfig.Node

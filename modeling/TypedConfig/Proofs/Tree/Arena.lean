import TypedConfig.Resolution.Progress
import TypedConfig.Tree.Build

/-!
# Trees in one sequence

A tree can be kept in one sequence of cells, in which a container knows its children by their
positions and a leaf has its state. `Arena.build` checks a configuration against a schema and makes
the tree in this form, adding each node at the end of the sequence when its children are there. It
fails where `Node.build` does, and what it makes is the tree of `Node.build`, added node by node
(`Arena.build_eq`).
-/

namespace TypedConfig

/-- A node of a tree: a container with its children by their positions, or a leaf with its state. -/
inductive Cell
  | dict (place : Keypath) (children : List (String × Nat))
  | list (place : Keypath) (children : List Nat)
  | leaf (leaf : Leaf) (state : LeafState)

namespace Cell

/-- The address of a node. -/
def place : Cell → Keypath
  | dict place _ => place
  | list place _ => place
  | leaf l _ => l.place

/-- The positions of the children. -/
def children : Cell → List Nat
  | dict _ children => children.map Prod.snd
  | list _ children => children
  | leaf .. => []

end Cell

/-- A tree in one sequence, and the position of its root. -/
structure Arena where
  cells : List Cell
  root : Nat

namespace Arena

/-- Adds a cell at the end and gives its position. -/
def push (c : Cell) : StateM (List Cell) Nat := fun cells => (cells.length, cells ++ [c])

end Arena

/-! ### Trees that are there already -/

namespace Node

open Arena

mutual

/-- Adds a tree, children before their parent. -/
def store : Node → StateM (List Cell) Nat
  | dict place children => do push (.dict place (← storeEntries [] children))
  | list place children => do push (.list place (← storeItems children))
  | leaf l => push (.leaf l (Progress.start.state l))

/-- Adds the children of a dict to those that are there. -/
def storeEntries (stored : List (String × Nat)) :
    List (String × Node) → StateM (List Cell) (List (String × Nat))
  | [] => return stored
  | (k, child) :: children => do
    let id ← store child
    storeEntries (Entries.insert k id stored) children

/-- Adds the children of a list. -/
def storeItems : List Node → StateM (List Cell) (List Nat)
  | [] => return []
  | child :: children => do
    let id ← store child
    return id :: (← storeItems children)

end

end Node

namespace Arena

/-! ### Building -/

mutual

/-- Adds the tree of a free-form section. -/
def ofAny (place : Keypath) : Json → StateM (List Cell) Nat
  | .object entries => do push (.dict place (← ofAnyEntries place [] entries))
  | .array items => do push (.list place (← ofAnyItems place 0 items))
  | .null => (Node.presetLeaf place .any .null .null).store
  | .bool b => (Node.openLeaf place .any (.bool b)).store
  | .number n => (Node.openLeaf place .any (.number n)).store
  | .string s => (Node.openLeaf place .any (.string s)).store

/-- Adds the children of a free-form object to those that are there. -/
def ofAnyEntries (place : Keypath) (children : List (String × Nat)) :
    List (String × Json) → StateM (List Cell) (List (String × Nat))
  | [] => return children
  | (k, j) :: js => do
    let id ← ofAny (place.key k) j
    ofAnyEntries place (Entries.insert k id children) js

/-- Adds the children of a free-form array, the first one at a position. -/
def ofAnyItems (place : Keypath) (position : Nat) : List Json → StateM (List Cell) (List Nat)
  | [] => return []
  | j :: js => do
    let id ← ofAny (place.index position) j
    return id :: (← ofAnyItems place (position + 1) js)

end

/-- Steps that add cells, unless the configuration does not fit. -/
abbrev Building (α : Type) := StateT (List Cell) (Except ShapeError) α

/-- Adding cells as such does not fail. -/
def fill {α : Type} (x : StateM (List Cell) α) : Building α := fun cells => .ok (x cells)

/-- Adds the items of a list, the first one at a position. -/
def ofItems (item : Keypath → Json → Building Nat) (place : Keypath) :
    (position : Nat) → List Json → Building (List Nat)
  | _, [] => return []
  | position, j :: js => do
    let id ← item (place.index position) j
    return id :: (← ofItems item place (position + 1) js)

/-- Adds the children for the keys that a schema does not declare. -/
def ofExtra (item : Option (Keypath → Json → Building Nat)) (place : Keypath)
    (children : List (String × Nat)) : List (String × Json) → Building (List (String × Nat))
  | [] => return children
  | (k, j) :: js =>
    match item with
    | none => throw (.unknownKey (place.key k))
    | some item => do
      let id ← item (place.key k) j
      ofExtra (some item) place (Entries.insert k id children) js

mutual

/-- Adds the tree of a configuration under a schema. -/
def build (schema : Schema) (place : Keypath) (raw : Json) : Building Nat :=
  match schema with
  | .any => fill (ofAny place raw)
  | .scalar type nullable => do fill (Node.store (← Node.ofScalar place type nullable raw))
  | .list element nullable =>
    match Node.standIn? place .list nullable raw with
    | some n => fill n.store
    | none =>
      match raw with
      | .array items => do
        fill (push (.list place (← ofItems (fun p j => build element p j) place 0 items)))
      | _ => throw (.mismatch place .list raw.kind)
  | .dict required optional extra nullable =>
    match Node.standIn? place .dict nullable raw with
    | some n => fill n.store
    | none =>
      match raw with
      | .object entries => do
        let declared := required.map Prod.fst ++ optional.map Prod.fst
        let children ← buildRequired place entries [] required
        let children ← buildOptional place entries children optional
        let children ← ofExtra (buildExtra extra) place children
          (entries.filter fun entry => !declared.contains entry.1)
        fill (push (.dict place children))
      | _ => throw (.mismatch place .dict raw.kind)

/-- Adds the children for the required keys. -/
def buildRequired (place : Keypath) (entries : List (String × Json))
    (children : List (String × Nat)) : List (String × Schema) → Building (List (String × Nat))
  | [] => return children
  | (k, schema) :: required =>
    match entries.lookup k with
    | none => throw (.missingKey (place.key k))
    | some j => do
      let id ← build schema (place.key k) j
      buildRequired place entries (Entries.insert k id children) required

/-- Adds the children for the optional keys; a default takes the place of an absent one. -/
def buildOptional (place : Keypath) (entries : List (String × Json))
    (children : List (String × Nat)) :
    List (String × Schema × Option Value) → Building (List (String × Nat))
  | [] => return children
  | (k, schema, default) :: optional =>
    match entries.lookup k, default with
    | some j, _ => do
      let id ← build schema (place.key k) j
      buildOptional place entries (Entries.insert k id children) optional
    | none, some v => do
      let id ← fill (Node.presetLeaf (place.key k) schema.leafType .null v).store
      buildOptional place entries (Entries.insert k id children) optional
    | none, none => throw (.missingKey (place.key k))

/-- How the children for undeclared keys are added. -/
def buildExtra : Option Schema → Option (Keypath → Json → Building Nat)
  | none => none
  | some schema => some fun p j => build schema p j

end

/-- The tree of a whole configuration, in one sequence. -/
def ofConfig (schema : Schema) (raw : Json) : Except ShapeError Arena := do
  let (root, cells) ← build schema .root raw []
  return { cells, root }

/-! ### What is built -/

mutual

theorem ofAny_eq : ∀ (place : Keypath) (j : Json), ofAny place j = (Node.ofAny place j).store
  | place, .object entries => by
    rw [ofAny, Node.ofAny, Node.store, ofAnyEntries_eq]
  | place, .array items => by rw [ofAny, Node.ofAny, Node.store, ofAnyItems_eq]
  | _, .null | _, .bool _ | _, .number _ | _, .string _ => rfl

theorem ofAnyEntries_eq : ∀ (place : Keypath) (children : List (String × Nat))
    (js : List (String × Json)),
    ofAnyEntries place children js = Node.storeEntries children (Node.ofAnyEntries place js)
  | _, _, [] => rfl
  | place, children, (k, j) :: js => by
    rw [ofAnyEntries, Node.ofAnyEntries, Node.storeEntries, ofAny_eq]
    exact bind_congr fun id => ofAnyEntries_eq place _ js

theorem ofAnyItems_eq : ∀ (place : Keypath) (position : Nat) (js : List Json),
    ofAnyItems place position js = Node.storeItems (Node.ofAnyItems place position js)
  | _, _, [] => rfl
  | place, position, j :: js => by
    rw [ofAnyItems, Node.ofAnyItems, Node.storeItems, ofAny_eq, ofAnyItems_eq]

end

/-- Builds a tree and adds it. -/
def add (x : Except ShapeError Node) : Building Nat := do fill (Node.store (← x))

/-- Builds children by their keys and adds them to those that are there. -/
def addEntries (children : List (String × Nat)) (x : Except ShapeError (List (String × Node))) :
    Building (List (String × Nat)) := do
  fill (Node.storeEntries children (← x))

section
variable {item : Keypath → Json → Except ShapeError Node} {item' : Keypath → Json → Building Nat}
  {place : Keypath}

theorem ofItems_eq (h : ∀ p j, item' p j = add (item p j)) (position : Nat) (js : List Json) :
    ofItems item' place position js =
      (do fill (Node.storeItems (← Node.ofItems item place position js))) := by
  induction js generalizing position with
  | nil => rfl
  | cons j js ih =>
    funext cells
    rw [ofItems, Node.ofItems, h, ih, add]
    cases item (place.index position) j with
    | error e => rfl
    | ok child => cases Node.ofItems item place (position + 1) js <;> rfl

theorem ofExtra_none_eq (children : List (String × Nat)) (js : List (String × Json)) :
    ofExtra none place children js = addEntries children (Node.ofExtra none place js) := by
  cases js <;> rfl

theorem ofExtra_some_eq (h : ∀ p j, item' p j = add (item p j)) (children : List (String × Nat))
    (js : List (String × Json)) : ofExtra (some item') place children js =
      addEntries children (Node.ofExtra (some item) place js) := by
  induction js generalizing children with
  | nil => rfl
  | cons e js ih =>
    obtain ⟨k, j⟩ := e
    funext cells
    simp only [ofExtra, Node.ofExtra, h, ih, add, addEntries]
    cases item (place.key k) j with
    | error e => rfl
    | ok child => cases Node.ofExtra (some item) place js <;> rfl

end

theorem storeEntries_append (stored : List (String × Nat))
    (children children' : List (String × Node)) :
    Node.storeEntries stored (children ++ children') =
      (do Node.storeEntries (← Node.storeEntries stored children) children') := by
  induction children generalizing stored with
  | nil => rfl
  | cons c children ih =>
    obtain ⟨k, n⟩ := c
    simp only [List.cons_append, Node.storeEntries, ih, bind_assoc]

mutual

/-- What is built in one sequence is the tree, added node by node. -/
theorem build_eq : ∀ (schema : Schema) (place : Keypath) (raw : Json),
    build schema place raw = add (Node.build schema place raw)
  | .any, place, raw => by
    rw [build, ofAny_eq]
    rfl
  | .scalar type nullable, place, raw => rfl
  | .list element nullable, place, raw => by
    unfold build Node.build
    cases Node.standIn? place .list nullable raw with
    | some n => rfl
    | none =>
      cases raw with
      | array items =>
        funext cells
        simp only [ofItems_eq (build_eq element), add]
        cases Node.ofItems (fun p j => Node.build element p j) place 0 items <;> rfl
      | _ => rfl
  | .dict required optional extra nullable, place, raw => by
    unfold build Node.build
    cases Node.standIn? place .dict nullable raw with
    | some n => rfl
    | none =>
      cases raw with
      | object entries =>
        funext cells
        simp only [buildRequired_eq required, buildOptional_eq optional, buildExtra_eq extra, add,
          addEntries]
        cases Node.buildRequired place entries required with
        | error e => rfl
        | ok cs₁ =>
          cases Node.buildOptional place entries optional with
          | error e => rfl
          | ok cs₂ =>
            cases Node.ofExtra (Node.buildExtra extra) place (entries.filter fun entry =>
              !(required.map Prod.fst ++ optional.map Prod.fst).contains entry.1) with
            | error e => rfl
            | ok cs₃ =>
              change _ = fill (Node.store (.dict place (cs₁ ++ cs₂ ++ cs₃))) cells
              rw [Node.store, storeEntries_append, storeEntries_append]
              rfl
      | _ => rfl

theorem buildRequired_eq : ∀ (required : List (String × Schema)) (place : Keypath)
    (entries : List (String × Json)) (children : List (String × Nat)),
    buildRequired place entries children required =
      addEntries children (Node.buildRequired place entries required)
  | [], _, _, _ => rfl
  | (k, schema) :: required, place, entries, children => by
    funext cells
    rw [buildRequired, Node.buildRequired]
    cases entries.lookup k with
    | none => rfl
    | some j =>
      simp only [build_eq schema, buildRequired_eq required, add, addEntries]
      cases Node.build schema (place.key k) j with
      | error e => rfl
      | ok child => cases Node.buildRequired place entries required <;> rfl

theorem buildOptional_eq : ∀ (optional : List (String × Schema × Option Value)) (place : Keypath)
    (entries : List (String × Json)) (children : List (String × Nat)),
    buildOptional place entries children optional =
      addEntries children (Node.buildOptional place entries optional)
  | [], _, _, _ => rfl
  | (k, schema, default) :: optional, place, entries, children => by
    funext cells
    unfold buildOptional Node.buildOptional
    cases entries.lookup k with
    | some j =>
      simp only [build_eq schema, buildOptional_eq optional, add, addEntries]
      cases Node.build schema (place.key k) j with
      | error e => rfl
      | ok child => cases Node.buildOptional place entries optional <;> rfl
    | none =>
      cases default with
      | none => rfl
      | some v =>
        simp only [buildOptional_eq optional, addEntries]
        cases Node.buildOptional place entries optional <;> rfl

theorem buildExtra_eq : ∀ (extra : Option Schema) (place : Keypath) (children : List (String × Nat))
    (js : List (String × Json)),
    ofExtra (buildExtra extra) place children js =
      addEntries children (Node.ofExtra (Node.buildExtra extra) place js)
  | none, _, children, js => ofExtra_none_eq children js
  | some schema, _, children, js => ofExtra_some_eq (build_eq schema) children js

end

theorem ofConfig_eq_ok_iff {schema : Schema} {raw : Json} {a : Arena} :
    ofConfig schema raw = .ok a ↔
      ∃ n, Node.build schema .root raw = .ok n ∧ n.store [] = (a.root, a.cells) := by
  rw [ofConfig, build_eq, add]
  cases Node.build schema .root raw with
  | error e =>
    constructor
    · intro h
      cases h
    · rintro ⟨n, ⟨⟩, -⟩
  | ok n =>
    constructor
    · intro h
      cases h
      exact ⟨n, rfl, rfl⟩
    · rintro ⟨n, ⟨⟩, hstore⟩
      change Except.ok (⟨(n.store []).2, (n.store []).1⟩ : Arena) = _
      rw [hstore]

end Arena
end TypedConfig

import TypedConfig.Keypath
import TypedConfig.Value

/-!
# Following steps

The place that steps from a place lead to (`Keypath.follow`), and what they lead to in a document
(`Json.reach?`) or in a value (`Value.reach?`). Other than the parts of a name, a step says whether
it is a key or a position. Steps and parts are followed one after the other.
-/

namespace TypedConfig

/-- The place that steps from a place lead to. -/
def Keypath.follow (place : Keypath) (steps : List Segment) : Keypath := ⟨place.segments ++ steps⟩

@[simp] theorem Keypath.follow_nil (place : Keypath) : place.follow [] = place := by
  simp [follow]

theorem Keypath.follow_cons (place : Keypath) (s : Segment) (steps : List Segment) :
    place.follow (s :: steps) = (place.push s).follow steps := by
  simp [follow, push]

theorem Keypath.follow_append (place : Keypath) (steps steps' : List Segment) :
    place.follow (steps ++ steps') = (place.follow steps).follow steps' := by
  simp [follow]

@[simp] theorem Keypath.follow_key (place : Keypath) (k : String) :
    place.follow [.key k] = place.key k := rfl

@[simp] theorem Keypath.follow_key_key (place : Keypath) (k k' : String) :
    place.follow [.key k, .key k'] = (place.key k).key k' := by
  rw [follow_cons]
  rfl

namespace Json

/-- What one step leads to. -/
def step? : Json → Segment → Option Json
  | object entries, .key k => entries.lookup k
  | array items, .index i => items[i]?
  | _, _ => none

/-- What steps lead to. -/
def reach? (j : Json) : List Segment → Option Json
  | [] => some j
  | s :: steps => (j.step? s).bind fun c => c.reach? steps

theorem reach?_append (j : Json) (steps steps' : List Segment) :
    j.reach? (steps ++ steps') = (j.reach? steps).bind fun c => c.reach? steps' := by
  induction steps generalizing j with
  | nil => rfl
  | cons s steps ih =>
    rw [List.cons_append, reach?, reach?, Option.bind_assoc]
    exact congrArg _ (funext ih)

theorem descend?_append (j : Json) (parts rest : List String) :
    j.descend? (parts ++ rest) = (j.descend? parts).bind fun c => c.descend? rest := by
  induction parts generalizing j with
  | nil => rfl
  | cons part parts ih =>
    rw [List.cons_append, descend?, descend?, Option.bind_assoc]
    exact congrArg _ (funext ih)

end Json

namespace Value

/-- What one step leads to. -/
def step? : Value → Segment → Option Value
  | dict entries, .key k => entries.lookup k
  | list items, .index i => items[i]?
  | _, _ => none

/-- What steps lead to. -/
def reach? (v : Value) : List Segment → Option Value
  | [] => some v
  | s :: steps => (v.step? s).bind fun c => c.reach? steps

theorem reach?_append (v : Value) (steps steps' : List Segment) :
    v.reach? (steps ++ steps') = (v.reach? steps).bind fun w => w.reach? steps' := by
  induction steps generalizing v with
  | nil => rfl
  | cons s steps ih =>
    rw [List.cons_append, reach?, reach?, Option.bind_assoc]
    exact congrArg _ (funext ih)

theorem descend?_append (v : Value) (parts rest : List String) :
    v.descend? (parts ++ rest) = (v.descend? parts).bind fun w => w.descend? rest := by
  induction parts generalizing v with
  | nil => rfl
  | cons part parts ih =>
    rw [List.cons_append, descend?, descend?, Option.bind_assoc]
    exact congrArg _ (funext ih)

end Value

end TypedConfig

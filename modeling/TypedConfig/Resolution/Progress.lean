import TypedConfig.Error
import TypedConfig.Tree.Basic

/-!
# Progress of a resolution

What a resolution knows at some moment: how far each leaf is, which leaves are being resolved, and
the trace of what was looked up and parsed. A leaf goes from unstarted to in progress to done. A
resolution is a function of the progress that ends in a value or an error; either way the progress
is kept.
-/

namespace TypedConfig

/-- Something that a resolution did on behalf of the leaf at a place. -/
inductive Event
  | lookup (place : Keypath) (name : String)
  | parse (place : Keypath) (type : LeafType) (text : String)
deriving DecidableEq, Repr

/-- How far a leaf is. -/
inductive LeafState
  | unstarted
  | inProgress
  | done (v : Value)

/-- Whether nothing has been done yet. -/
def LeafState.isUnstarted : LeafState → Bool
  | unstarted => true
  | _ => false

/-- The states that leaves were given by their places, the latest first; the leaves in progress,
outermost first; and what was done so far, oldest first. -/
structure Progress where
  states : List (Keypath × LeafState)
  stack : List Leaf
  trace : List Event

namespace Progress

/-- The start of a resolution. -/
def start : Progress := ⟨[], [], []⟩

/-- The state of a leaf. One that has its value from the beginning is done. -/
def state (p : Progress) (l : Leaf) : LeafState :=
  match l.preset with
  | some v => .done v
  | none => (p.states.lookup l.place).getD .unstarted

/-- Starts on a leaf. -/
def enter (p : Progress) (l : Leaf) : Progress :=
  { p with states := (l.place, .inProgress) :: p.states, stack := p.stack ++ [l] }

/-- Finishes the leaf that was started last. -/
def leave (p : Progress) (l : Leaf) (v : Value) : Progress :=
  { p with states := (l.place, .done v) :: p.states, stack := p.stack.dropLast }

/-- An event more. -/
def log (p : Progress) (e : Event) : Progress := { p with trace := p.trace ++ [e] }

variable (p : Progress) (l l' : Leaf) (v : Value) (e : Event)

theorem state_of_preset {v : Value} (h : l.preset = some v) : p.state l = .done v := by
  simp [state, h]

theorem state_start (h : l.preset = none) : start.state l = .unstarted := by
  simp [state, start, h]

theorem preset_of_state {p : Progress} (h : ∀ v, p.state l ≠ .done v) : l.preset = none := by
  cases hl : l.preset with
  | none => rfl
  | some v => exact absurd (p.state_of_preset l hl) (h v)

theorem state_enter : (p.enter l).state l' =
    if l'.preset = none ∧ l'.place = l.place then .inProgress else p.state l' := by
  cases hl : l'.preset with
  | some v => simp [state, hl]
  | none => by_cases h : l'.place = l.place <;> simp [state, hl, enter, h, List.lookup_cons, beq_false_of_ne]

theorem state_leave : (p.leave l v).state l' =
    if l'.preset = none ∧ l'.place = l.place then .done v else p.state l' := by
  cases hl : l'.preset with
  | some w => simp [state, hl]
  | none => by_cases h : l'.place = l.place <;> simp [state, hl, leave, h, List.lookup_cons, beq_false_of_ne]

@[simp] theorem state_log : (p.log e).state l = p.state l := rfl

@[simp] theorem stack_enter : (p.enter l).stack = p.stack ++ [l] := rfl

@[simp] theorem stack_leave : (p.leave l v).stack = p.stack.dropLast := rfl

@[simp] theorem stack_log : (p.log e).stack = p.stack := rfl

@[simp] theorem trace_enter : (p.enter l).trace = p.trace := rfl

@[simp] theorem trace_leave : (p.leave l v).trace = p.trace := rfl

@[simp] theorem trace_log : (p.log e).trace = p.trace ++ [e] := rfl

end Progress

/-- A computation that makes progress and may fail. -/
abbrev Resolution (α : Type) := EStateM Error Progress α

end TypedConfig

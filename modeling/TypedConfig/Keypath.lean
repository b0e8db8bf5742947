import TypedConfig.Text.Numeral

/-!
# Keypaths

The address of a place in a configuration: mapping keys and list positions from the root on.
Keypaths are ordered segment by segment, a key before a position. A reference spells its address
with dots, and whether a part is a key or a position is left to the container that it is applied
to.
-/

namespace TypedConfig

/-- One step into a container. -/
inductive Segment
  | key (name : String)
  | index (position : Nat)
deriving DecidableEq, Repr

namespace Segment

/-- The segment as it appears in a displayed keypath. -/
def text : Segment → String
  | key name => name
  | index position => Text.numeral position

/-- Keys by the order of their text, positions by size, and keys first. -/
def compare : Segment → Segment → Ordering
  | key a, key b => Ord.compare a b
  | key _, index _ => .lt
  | index _, key _ => .gt
  | index a, index b => Ord.compare a b

end Segment

/-- The steps from the root to a place. -/
structure Keypath where
  segments : List Segment
deriving DecidableEq, Repr

namespace Keypath

/-- The root. -/
def root : Keypath := ⟨[]⟩

/-- One step further. -/
def push (kp : Keypath) (s : Segment) : Keypath := ⟨kp.segments ++ [s]⟩

/-- One step further, by a key. -/
def key (kp : Keypath) (name : String) : Keypath := kp.push (.key name)

/-- One step further, by a position. -/
def index (kp : Keypath) (position : Nat) : Keypath := kp.push (.index position)

/-- The number of steps. -/
def length (kp : Keypath) : Nat := kp.segments.length

/-- Whether this is the root. -/
def isRoot (kp : Keypath) : Bool := kp.segments.isEmpty

@[simp] theorem length_push (kp : Keypath) (s : Segment) : (kp.push s).length = kp.length + 1 := by
  simp [push, length]

@[simp] theorem isRoot_push (kp : Keypath) (s : Segment) : (kp.push s).isRoot = false := by
  simp [push, isRoot]

/-- The dotted form. -/
def text (kp : Keypath) : String :=
  if kp.isRoot then "<root>" else ".".intercalate (kp.segments.map Segment.text)

/-- The lexicographic order of two lists of segments. -/
def compareSegments : List Segment → List Segment → Ordering
  | [], [] => .eq
  | [], _ :: _ => .lt
  | _ :: _, [] => .gt
  | a :: as, b :: bs => (a.compare b).then (compareSegments as bs)

/-- The order of keypaths. -/
def compare (a b : Keypath) : Ordering := compareSegments a.segments b.segments

/-- The parts of a dotted name, without the blanks around each. -/
def dottedParts (name : String) : List String :=
  (Text.splitWhere (· == '.') name.toList).map fun part => String.ofList (Text.trim part)

end Keypath

end TypedConfig

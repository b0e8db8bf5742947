import TypedConfig.Schema.Basic
import TypedConfig.Template

/-!
# Node trees

A configuration under its schema. The nodes mirror the containers of the configuration; a leaf holds
a scalar that is still to be parsed, or a value that is there from the start (a default, or null),
or a reference that a whole container is taken from.
-/

namespace TypedConfig

/-- The kinds of containers. -/
inductive Container
  | dict
  | list
deriving DecidableEq, Repr

/-- The kind of the values of a container. -/
def Container.kind : Container → Kind
  | dict => .dict
  | list => .list

/-- What a leaf resolves to: a value of its type, or the container that a reference names. -/
inductive LeafKind
  | typed (type : LeafType)
  | alias (container : Container) (name : String)
deriving DecidableEq, Repr

/-- A leaf: its address, its kind, the document it was given as, and its value if that is known
before anything is resolved. -/
structure Leaf where
  place : Keypath
  kind : LeafKind
  raw : Json
  preset : Option Value

/-- A node of a tree, with its address. -/
inductive Node
  | dict (place : Keypath) (children : List (String × Node))
  | list (place : Keypath) (children : List Node)
  | leaf (leaf : Leaf)

namespace Node

/-- The address of a node. -/
def place : Node → Keypath
  | dict place _ => place
  | list place _ => place
  | leaf l => l.place

mutual

/-- All nodes from a node on down, children before their parent. -/
def nodes : Node → List Node
  | dict place children => nodesOfEntries children ++ [dict place children]
  | list place children => nodesOfItems children ++ [list place children]
  | leaf l => [leaf l]

/-- The nodes below a dict. -/
def nodesOfEntries : List (String × Node) → List Node
  | [] => []
  | (_, child) :: children => nodes child ++ nodesOfEntries children

/-- The nodes below a list. -/
def nodesOfItems : List Node → List Node
  | [] => []
  | child :: children => nodes child ++ nodesOfItems children

end

/-- The number of nodes from a node on down. -/
def size (n : Node) : Nat := n.nodes.length

/-- The leaves from a node on down, in order. -/
def leaves (n : Node) : List Leaf :=
  n.nodes.filterMap fun
    | leaf l => some l
    | _ => none

@[simp] theorem leaves_leaf (l : Leaf) : (leaf l).leaves = [l] := by simp [leaves, nodes]

theorem filterMap_nodesOfEntries (f : Node → Option Leaf) (children : List (String × Node)) :
    (nodesOfEntries children).filterMap f = children.flatMap fun child => child.2.nodes.filterMap f := by
  induction children with
  | nil => simp [nodesOfEntries]
  | cons child children ih => simp [nodesOfEntries, ih]

theorem filterMap_nodesOfItems (f : Node → Option Leaf) (children : List Node) :
    (nodesOfItems children).filterMap f = children.flatMap fun child => child.nodes.filterMap f := by
  induction children with
  | nil => simp [nodesOfItems]
  | cons child children ih => simp [nodesOfItems, ih]

@[simp] theorem leaves_dict (place : Keypath) (children : List (String × Node)) :
    (dict place children).leaves = children.flatMap fun child => child.2.leaves := by
  simp [leaves, nodes, filterMap_nodesOfEntries]

@[simp] theorem leaves_list (place : Keypath) (children : List Node) :
    (list place children).leaves = children.flatMap leaves := by
  simp [leaves, nodes, filterMap_nodesOfItems]
  rfl

theorem mem_leaves_dict {place : Keypath} {children : List (String × Node)} {c : String × Node}
    {l : Leaf} (hc : c ∈ children) (hl : l ∈ c.2.leaves) : l ∈ (dict place children).leaves := by
  rw [leaves_dict]
  exact List.mem_flatMap.2 ⟨c, hc, hl⟩

theorem mem_leaves_list {place : Keypath} {children : List Node} {c : Node} {l : Leaf}
    (hc : c ∈ children) (hl : l ∈ c.leaves) : l ∈ (list place children).leaves := by
  rw [leaves_list]
  exact List.mem_flatMap.2 ⟨c, hc, hl⟩

/-- The leaves that do not have their value from the beginning. -/
def openLeaves (n : Node) : List Leaf := n.leaves.filter fun l => l.preset.isNone

/-- Follows parts of a dotted name down to the deepest node they reach, and returns the parts that
are left over. Parts are left over only at a leaf; a container must have the child asked for. -/
def locate? : Node → List String → Option (Node × List String)
  | n, [] => some (n, [])
  | dict _ children, part :: parts =>
    match children.lookup part with
    | some child => child.locate? parts
    | none => none
  | list _ children, part :: parts =>
    match (Text.index? part).bind fun i => children[i]? with
    | some child => child.locate? parts
    | none => none
  | leaf l, parts => some (leaf l, parts)
termination_by structural _ parts => parts

theorem mem_leaves_of_locate? {n node : Node} {parts rest : List String}
    (h : n.locate? parts = some (node, rest)) : ∀ l ∈ node.leaves, l ∈ n.leaves := by
  induction parts generalizing n with
  | nil =>
    rw [locate?, Option.some.injEq, Prod.mk.injEq] at h
    rw [h.1]
    exact fun _ hl => hl
  | cons part parts ih =>
    intro l hl
    cases n with
    | leaf =>
      rw [locate?, Option.some.injEq, Prod.mk.injEq] at h
      · rwa [h.1]
      · simp
    | dict place children =>
      rw [locate?] at h
      split at h
      · next child hc =>
        obtain ⟨before, after, rfl, -⟩ := List.lookup_eq_some_iff.1 hc
        simp [ih h l hl]
      · cases h
    | list place children =>
      rw [locate?] at h
      split at h
      · next child hc =>
        obtain ⟨i, -, hi⟩ := Option.bind_eq_some_iff.1 hc
        exact mem_leaves_list (List.mem_of_getElem? hi) (ih h l hl)
      · cases h

end Node

end TypedConfig

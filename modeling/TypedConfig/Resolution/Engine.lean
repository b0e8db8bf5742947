import TypedConfig.Parsers
import TypedConfig.Resolution.Progress
import TypedConfig.Tree.Basic

/-!
# Resolving a tree

Containers resolve to their resolved children, in order. A leaf resolves on demand, when the walk
through the tree or a reference first comes to it, and keeps its value from then on. While a leaf
is in progress it is on a stack; a reference to a leaf in progress closes a cycle. Only a leaf that
is not started yet is ever started, so that references end.
-/

namespace TypedConfig

/-- What a resolution is given, apart from the tree. -/
structure Settings where
  externals : Json
  parsers : Parsers
  dialect : Template.Dialect
  selfName : String

/-- What a reference refers to: parts to follow in the configuration, or among the variables. -/
inductive Target
  | internal (parts : List String)
  | external (parts : List String)
deriving DecidableEq, Repr

/-- The target of a name: the configuration if its first part is the name that it has for itself. -/
def Settings.target (s : Settings) (name : String) : Target :=
  match Keypath.dottedParts name with
  | [] => .external []
  | part :: parts => if part = s.selfName then .internal parts else .external (part :: parts)

/-- Resolves the leaves of a node in order and puts the container together. -/
def Node.assemble (resolveLeaf : Leaf → Resolution Value) : Node → Resolution Value
  | dict _ children => do return .dict (← assembleEntries resolveLeaf children)
  | list _ children => do return .list (← assembleItems resolveLeaf children)
  | leaf l => resolveLeaf l
where
  /-- The entries of a dict. -/
  assembleEntries (resolveLeaf : Leaf → Resolution Value) :
      List (String × Node) → Resolution (List (String × Value))
    | [] => return []
    | (k, child) :: children => do
      let v ← assemble resolveLeaf child
      return (k, v) :: (← assembleEntries resolveLeaf children)
  /-- The items of a list. -/
  assembleItems (resolveLeaf : Leaf → Resolution Value) : List Node → Resolution (List Value)
    | [] => return []
    | child :: children => do
      let v ← assemble resolveLeaf child
      return v :: (← assembleItems resolveLeaf children)

namespace Resolution

/-- Adds an event to the trace. -/
def log (e : Event) : Resolution Unit := modify fun p => p.log e

/-- Follows parts within the configuration; `resolveNode` resolves the node that they lead to. Parts
that are left over at a leaf are followed within its value. -/
def followInternal (root : Node) (resolveNode : Node → Resolution Value) (unknown : Error)
    (parts : List String) : Resolution Value :=
  match root.locate? parts with
  | none => throw unknown
  | some (node, rest) => do
    let v ← resolveNode node
    match v.descend? rest with
    | none => throw unknown
    | some v => return v

/-- Follows parts among the variables. -/
def followExternal (settings : Settings) (unknown : Error) (parts : List String) :
    Resolution Json :=
  match settings.externals.descend? parts with
  | none => throw unknown
  | some j => return j

/-- The text that a name in a template stands for, asked by the leaf at a place. -/
def lookup (settings : Settings) (root : Node) (resolveNode : Node → Resolution Value)
    (place : Keypath) (name : String) : Resolution String := do
  log (.lookup place name)
  let unknown := .unknownReference place name
  match settings.target name with
  | .internal parts => return (← followInternal root resolveNode unknown parts).text
  | .external parts => return (← followExternal settings unknown parts).scalarText

/-- The value of a text, parsed for the leaf at a place. -/
def parse (settings : Settings) (place : Keypath) (type : LeafType) (raw : Json) (text : String) :
    Resolution Value := do
  log (.parse place type text)
  match settings.parsers.get type text with
  | .ok v => return v
  | .error e => throw (.parse place raw.scalarText text e)

/-- The value of a typed leaf. -/
def resolveTyped (settings : Settings) (root : Node) (resolveNode : Node → Resolution Value)
    (place : Keypath) (type : LeafType) (raw : Json) : Resolution Value :=
  match raw, type with
  | .string template, type => do
    let text ← (Template.scan settings.dialect template).render
      (lookup settings root resolveNode place)
      fun position fault => throw (.template place template position fault)
    parse settings place type raw text
  | raw, .any => return Value.ofJson raw
  | raw, type => parse settings place type raw raw.scalarText

/-- The container that a reference names. -/
def resolveAlias (settings : Settings) (root : Node) (resolveNode : Node → Resolution Value)
    (place : Keypath) (container : Container) (name : String) : Resolution Value := do
  let unknown := .unknownReference place name
  let v ← match settings.target name with
    | .internal parts => followInternal root resolveNode unknown parts
    | .external parts => Value.ofJson <$> followExternal settings unknown parts
  if v.kind = container.kind then return v
  else throw (.shape (.mismatch place container.kind v.kind))

/-- The value of a leaf that has none yet. -/
def resolveOpen (settings : Settings) (root : Node) (resolveNode : Node → Resolution Value)
    (l : Leaf) : Resolution Value :=
  match l.kind with
  | .typed type => resolveTyped settings root resolveNode l.place type l.raw
  | .alias container name => resolveAlias settings root resolveNode l.place container name

/-- The cycle that coming back to a leaf closes: the stack from that leaf on, and the leaf again. -/
def cycle (stack : List Leaf) (place : Keypath) : List Keypath :=
  (stack.map Leaf.place).drop (((stack.map Leaf.place).idxOf? place).getD 0) ++ [place]

/-- Coming back to a leaf that is in progress. -/
def reenter (l : Leaf) : Resolution Value := do
  throw (.circularReference l.place (cycle (← get).stack l.place))

/-- A visit to a leaf. A leaf that is done has its value; one that is not started is resolved now,
with visits to the leaves that it refers to by `again`. -/
def visit (settings : Settings) (root : Node) (again : Leaf → Resolution Value) (l : Leaf) :
    Resolution Value := do
  match (← get).state l with
  | .done v => return v
  | .inProgress => reenter l
  | .unstarted =>
    modify fun p => p.enter l
    let v ← resolveOpen settings root (fun n => n.assemble again) l
    modify fun p => p.leave l v
    return v

/-- Visits that nest no deeper than `depth`; what lies beyond is left to `beyond`. -/
def visitWithin (settings : Settings) (root : Node) (beyond : Leaf → Resolution Value) :
    (depth : Nat) → Leaf → Resolution Value
  | 0 => beyond
  | depth + 1 => visit settings root (visitWithin settings root beyond depth)

/-- The value of a whole tree. Each visit but the innermost one starts a leaf, so that they nest
once for each leaf that is not done from the beginning, and once more. -/
def resolveTree (settings : Settings) (root : Node) : Resolution Value :=
  root.assemble (visitWithin settings root reenter (root.openLeaves.length + 1))

end Resolution

end TypedConfig

import Mathlib.Data.List.Chain
import Mathlib.Data.List.Nodup
import TypedConfig.Proofs.Tree.Arena
import TypedConfig.Resolution.Engine

/-!
# Resolving in an arena

A resolution as it goes on in the arena of a tree: a leaf has its state in its cell, where it is
read and changed, and the leaves in progress are on a stack by their positions. Nothing else is
there that could change. Each call, and each change to the state of a leaf, is noted together with
the arena and the stack of the moment (`Moment`). A position outside of the arena stops a run, as
does nesting too deep; neither of the two is an error that could be reported (`Stop`).

From one moment to the next one leaf moves at most (`Engine.Step`). It follows that the stack lists
the leaves in progress at each moment, and that all but the states of leaves is at each moment what
it was at the start (`Engine.orderly_of_isChain`).
-/

namespace TypedConfig

/-- The cell with another state, if it is a leaf. -/
def Cell.withState (s : LeafState) : Cell → Cell
  | leaf l _ => leaf l s
  | c => c

/-- Changes the state of the leaf at a position. -/
def Arena.setState (a : Arena) (id : Nat) (s : LeafState) : Arena :=
  { a with cells := a.cells.modify id (Cell.withState s) }

/-- An arena, and the positions of the leaves in progress, outermost first. -/
structure Engine where
  tree : Arena
  stack : List Nat

namespace Engine

/-- The start of a resolution. -/
def start (a : Arena) : Engine := ⟨a, []⟩

/-- Starts on the leaf at a position. -/
def enter (e : Engine) (id : Nat) : Engine := ⟨e.tree.setState id .inProgress, e.stack ++ [id]⟩

/-- Takes the leaf that was started last off the stack. -/
def pop (e : Engine) : Engine := { e with stack := e.stack.dropLast }

/-- Gives the leaf at a position its value. -/
def finish (e : Engine) (id : Nat) (v : Value) : Engine :=
  { e with tree := e.tree.setState id (.done v) }

end Engine

/-! ### Notes -/

/-- What is noted: calls that resolve a node or a leaf, look up a name for the leaf at a place or
report a cycle, and that a leaf was started or finished. -/
inductive Occasion
  | node (id : Nat)
  | leaf (id : Nat)
  | lookup (place : Keypath) (name : String)
  | cycle (id : Nat)
  | started (id : Nat)
  | finished (id : Nat)

/-- An occasion, and the state of the engine then. -/
structure Moment where
  occasion : Occasion
  engine : Engine

/-- The state of an engine and the moments so far, oldest first. -/
structure Watch where
  engine : Engine
  moments : List Moment

/-- Why a run ends without a value. -/
inductive Stop
  | error (e : Error)
  | outOfRange
  | tooDeep

/-- A computation of an engine that is being watched. -/
abbrev Watching (α : Type) := EStateM Stop Watch α

namespace Watching

/-- Changes the state of the engine on an occasion. -/
def change (o : Occasion) (f : Engine → Engine) : Watching Unit :=
  modify fun w => ⟨f w.engine, w.moments ++ [⟨o, f w.engine⟩]⟩

/-- Notes an occasion. -/
def note (o : Occasion) : Watching Unit := change o fun e => e

/-- Takes the last leaf off the stack after a computation, however it ends. -/
def popAfter {α : Type} (x : Watching α) : Watching α := fun w =>
  match x w with
  | .ok v w => .ok v { w with engine := w.engine.pop }
  | .error e w => .error e { w with engine := w.engine.pop }

/-- Reports an error. -/
def fail {α : Type} (e : Error) : Watching α := throw (.error e)

/-- The cell at a position. -/
def cell (id : Nat) : Watching Cell := do
  match (← get).engine.tree.cells[id]? with
  | some c => return c
  | none => throw .outOfRange

/-! ### Calls -/

/-- Resolves the entries of a dict. -/
def resolveEntries (node : Nat → Watching Value) :
    List (String × Nat) → Watching (List (String × Value))
  | [] => return []
  | (k, id) :: children => do
    let v ← node id
    return (k, v) :: (← resolveEntries node children)

/-- Resolves the items of a list. -/
def resolveItems (node : Nat → Watching Value) : List Nat → Watching (List Value)
  | [] => return []
  | id :: children => do
    let v ← node id
    return v :: (← resolveItems node children)

/-- Resolves the node at a position that is less than the height. -/
def resolveNode (leaf : Nat → Watching Value) : (height : Nat) → Nat → Watching Value
  | 0, _ => throw .tooDeep
  | height + 1, id => do
    note (.node id)
    match ← cell id with
    | .dict _ children => return .dict (← resolveEntries (resolveNode leaf height) children)
    | .list _ children => return .list (← resolveItems (resolveNode leaf height) children)
    | .leaf .. => leaf id

/-- Follows parts of a dotted name down from a position, as `Node.locate?` does from a node. -/
def locate : Nat → List String → Watching (Option (Nat × List String))
  | id, [] => return some (id, [])
  | id, part :: parts => do
    match ← cell id with
    | .dict _ children =>
      match children.lookup part with
      | some child => locate child parts
      | none => return none
    | .list _ children =>
      match (Text.index? part).bind fun i => children[i]? with
      | some child => locate child parts
      | none => return none
    | .leaf .. => return some (id, part :: parts)

/-- Follows parts within the configuration. -/
def followInternal (node : Nat → Watching Value) (unknown : Error) (parts : List String) :
    Watching Value := do
  match ← locate (← get).engine.tree.root parts with
  | none => fail unknown
  | some (id, rest) =>
    let v ← node id
    match v.descend? rest with
    | none => fail unknown
    | some v => return v

/-- Follows parts among the variables. -/
def followExternal (settings : Settings) (unknown : Error) (parts : List String) : Watching Json :=
  match settings.externals.descend? parts with
  | none => fail unknown
  | some j => return j

/-- The text that a name in a template stands for, asked by the leaf at a place. -/
def lookup (settings : Settings) (node : Nat → Watching Value) (place : Keypath) (name : String) :
    Watching String := do
  note (.lookup place name)
  let unknown := .unknownReference place name
  match settings.target name with
  | .internal parts => return (← followInternal node unknown parts).text
  | .external parts => return (← followExternal settings unknown parts).scalarText

/-- The value of a text, parsed for the leaf at a place. -/
def parse (settings : Settings) (place : Keypath) (type : LeafType) (raw : Json) (text : String) :
    Watching Value :=
  match settings.parsers.get type text with
  | .ok v => return v
  | .error e => fail (.parse place raw.scalarText text e)

/-- The value of a typed leaf. -/
def resolveTyped (settings : Settings) (node : Nat → Watching Value) (place : Keypath)
    (type : LeafType) (raw : Json) : Watching Value :=
  match raw, type with
  | .string template, type => do
    let text ← (Template.scan settings.dialect template).render (lookup settings node place)
      fun position fault => fail (.template place template position fault)
    parse settings place type raw text
  | raw, .any => return Value.ofJson raw
  | raw, type => parse settings place type raw raw.scalarText

/-- The container that a reference names. -/
def resolveAlias (settings : Settings) (node : Nat → Watching Value) (place : Keypath)
    (container : Container) (name : String) : Watching Value := do
  let unknown := .unknownReference place name
  let v ← match settings.target name with
    | .internal parts => followInternal node unknown parts
    | .external parts => Value.ofJson <$> followExternal settings unknown parts
  if v.kind = container.kind then return v
  else fail (.shape (.mismatch place container.kind v.kind))

/-- The value of a leaf that has none yet. -/
def resolveOpen (settings : Settings) (node : Nat → Watching Value) (l : Leaf) : Watching Value :=
  match l.kind with
  | .typed type => resolveTyped settings node l.place type l.raw
  | .alias container name => resolveAlias settings node l.place container name

/-- The address of the node at a position. -/
def placeAt (id : Nat) : Watching Keypath := return (← cell id).place

/-- Reports the cycle from a leaf on the stack back to itself. -/
def cycleError {α : Type} (id : Nat) : Watching α := do
  note (.cycle id)
  let stack := (← get).engine.stack
  let cycle ← (stack.drop ((stack.idxOf? id).getD 0)).mapM placeAt
  let place ← placeAt id
  fail (.circularReference place (cycle ++ [place]))

/-- A visit to the leaf at a position. -/
def visit (settings : Settings) (node : Nat → Watching Value) (id : Nat) : Watching Value := do
  note (.leaf id)
  match ← cell id with
  | .leaf _ (.done v) => return v
  | .leaf _ .inProgress => cycleError id
  | .leaf l .unstarted =>
    change (.started id) fun e => e.enter id
    let v ← popAfter (resolveOpen settings node l)
    change (.finished id) fun e => e.finish id v
    return v
  | _ => node id

/-- Visits that nest no deeper than `depth`. -/
def visitWithin (settings : Settings) (height : Nat) : (depth : Nat) → Nat → Watching Value
  | 0, _ => throw .tooDeep
  | depth + 1, id => visit settings (resolveNode (visitWithin settings height depth) height) id

/-- The value of a whole arena. A height of the number of cells is above each position, and there
are no more leaves to start than cells. -/
def resolveArena (settings : Settings) (a : Arena) : Watching Value :=
  let height := a.cells.length
  resolveNode (visitWithin settings height (height + 1)) height a.root

end Watching

/-- Resolves an arena; ends with a value or without one, and with the moments that there were. -/
def Engine.run (settings : Settings) (a : Arena) : Except Stop Value × List Moment :=
  match Watching.resolveArena settings a ⟨.start a, []⟩ with
  | .ok v w => (.ok v, w.moments)
  | .error e w => (.error e, w.moments)

/-! ### States -/

/-- The cell with the state that its leaf has at some progress. -/
def Cell.showing (p : Progress) : Cell → Cell
  | leaf l _ => leaf l (p.state l)
  | c => c

theorem Cell.showing_withState (p : Progress) (s : LeafState) (c : Cell) :
    (c.withState s).showing p = c.showing p := by
  cases c <;> rfl

namespace Arena

/-- The arena with the states that leaves have at some progress. -/
def showing (a : Arena) (p : Progress) : Arena :=
  { a with cells := a.cells.map (Cell.showing p) }

variable {a : Arena} {id i : Nat} {s t : LeafState} {l : Leaf}

theorem getElem?_showing (a : Arena) (p : Progress) (i : Nat) :
    (a.showing p).cells[i]? = a.cells[i]?.map (Cell.showing p) :=
  List.getElem?_map

theorem getElem?_setState (a : Arena) (id i : Nat) (s : LeafState) : (a.setState id s).cells[i]? =
    if i = id then a.cells[i]?.map (Cell.withState s) else a.cells[i]? := by
  rw [setState, List.getElem?_modify]
  by_cases h : i = id
  · simp [h]
  · simp [h, Ne.symm h]

theorem showing_setState (a : Arena) (p : Progress) (id : Nat) (s : LeafState) :
    (a.setState id s).showing p = a.showing p := by
  have hcells : (a.setState id s).cells.map (Cell.showing p) = a.cells.map (Cell.showing p) := by
    refine List.ext_getElem? fun i => ?_
    rw [List.getElem?_map, List.getElem?_map, getElem?_setState]
    split
    · cases a.cells[i]? with
      | none => rfl
      | some c => exact congrArg some (c.showing_withState p s)
    · rfl
  rw [showing, hcells]
  rfl

/-- The leaf at the position has the new state, and the others have theirs. -/
theorem leaf_setState_iff (h : a.cells[id]? = some (.leaf l t)) {i : Nat} {l' : Leaf}
    {s' : LeafState} : (a.setState id s).cells[i]? = some (.leaf l' s') ↔
      i = id ∧ l' = l ∧ s' = s ∨ i ≠ id ∧ a.cells[i]? = some (.leaf l' s') := by
  rw [getElem?_setState]
  by_cases hi : i = id
  · simp [hi, h, Cell.withState, eq_comm]
  · simp [hi]

end Arena

/-! ### Moments -/

namespace Engine

/-- From one moment to the next nothing happens, or a leaf that is not started is started and comes
last on the stack, or the last leaf on the stack, which is in progress, is done and leaves it. -/
inductive Step (e : Engine) : Engine → Prop
  | stay : Step e e
  | enter {id : Nat} {l : Leaf} (h : e.tree.cells[id]? = some (.leaf l .unstarted)) :
      Step e (e.enter id)
  | leave {id : Nat} {l : Leaf} (h : e.tree.cells[id]? = some (.leaf l .inProgress))
      (hlast : e.stack.getLast? = some id) (v : Value) : Step e (e.pop.finish id v)

/-- The stack lists the leaves in progress, each once, and apart from the states of leaves the arena
is the one at the start. -/
structure Orderly (a : Arena) (e : Engine) : Prop where
  tree : e.tree.showing .start = a
  nodup : e.stack.Nodup
  mem_iff : ∀ id, id ∈ e.stack ↔ ∃ l, e.tree.cells[id]? = some (.leaf l .inProgress)

variable {a : Arena} {e e' : Engine} {id : Nat} {l : Leaf}

theorem Orderly.start (h : a.showing .start = a) : (start a).Orderly a where
  tree := h
  nodup := List.nodup_nil
  mem_iff id := by
    refine ⟨nofun, ?_⟩
    rintro ⟨l, hl⟩
    have hl : a.cells[id]? = some (.leaf l .inProgress) := hl
    rw [← h, Arena.getElem?_showing] at hl
    obtain ⟨c, -, hc⟩ := Option.map_eq_some_iff.1 hl
    cases c with
    | leaf l' s =>
      obtain ⟨rfl, hs⟩ := Cell.leaf.inj hc
      -- a leaf is unstarted at the start, or done
      cases hpreset : l'.preset with
      | none =>
        rw [Progress.state_start l' hpreset] at hs
        cases hs
      | some v =>
        rw [Progress.state_of_preset _ l' hpreset] at hs
        cases hs
    | _ => cases hc

theorem Orderly.enter (h : e.Orderly a) (hl : e.tree.cells[id]? = some (.leaf l .unstarted)) :
    (e.enter id).Orderly a where
  tree := (Arena.showing_setState ..).trans h.tree
  nodup := by
    have hnot : id ∉ e.stack := fun hmem => by
      obtain ⟨l', hl'⟩ := (h.mem_iff id).1 hmem
      cases hl.symm.trans hl'
    exact List.nodup_append.2 ⟨h.nodup, List.nodup_singleton _, fun i hi j hj heq =>
      hnot (List.mem_singleton.1 hj ▸ heq ▸ hi)⟩
  mem_iff i := by
    change i ∈ e.stack ++ [id] ↔ ∃ l', (e.tree.setState id .inProgress).cells[i]? = _
    simp only [List.mem_append, List.mem_singleton, h.mem_iff, Arena.leaf_setState_iff hl]
    by_cases hi : i = id
    · simp [hi]
    · simp [hi]

theorem Orderly.leave (h : e.Orderly a) (hl : e.tree.cells[id]? = some (.leaf l .inProgress))
    (hlast : e.stack.getLast? = some id) (v : Value) : (e.pop.finish id v).Orderly a := by
  obtain ⟨stack, hstack⟩ := List.getLast?_eq_some_iff.1 hlast
  have hnodup : (stack ++ [id]).Nodup := hstack ▸ h.nodup
  have hdrop : (e.pop.finish id v).stack = stack := by
    change e.stack.dropLast = stack
    rw [hstack, List.dropLast_concat]
  refine ⟨(Arena.showing_setState ..).trans h.tree, ?_, fun i => ?_⟩
  · rw [hdrop]
    exact (List.nodup_append.1 hnodup).1
  · have hmem := h.mem_iff i
    rw [hstack, List.mem_append, List.mem_singleton] at hmem
    rw [hdrop]
    change i ∈ stack ↔ ∃ l', (e.tree.setState id (.done v)).cells[i]? = _
    simp only [Arena.leaf_setState_iff hl]
    by_cases hi : i = id
    · have hnot : id ∉ stack := fun hid =>
        (List.nodup_append.1 hnodup).2.2 id hid id (List.mem_singleton_self _) rfl
      simp [hi, hnot]
    · simpa [hi] using hmem

theorem Orderly.step (h : e.Orderly a) (hstep : e.Step e') : e'.Orderly a := by
  cases hstep with
  | stay => exact h
  | enter hl => exact h.enter hl
  | leave hl hlast v => exact h.leave hl hlast v

/-- Each moment of a run is orderly. -/
theorem orderly_of_isChain {es : List Engine} (h : (e :: es).IsChain Step) (he : e.Orderly a) :
    ∀ e' ∈ e :: es, e'.Orderly a := by
  induction es generalizing e with
  | nil =>
    intro e' he'
    rw [List.mem_singleton.1 he']
    exact he
  | cons e₁ es ih =>
    obtain ⟨hstep, h⟩ := List.isChain_cons_cons.1 h
    exact List.forall_mem_cons.2 ⟨he, ih h (he.step hstep)⟩

/-- The leaf at each position keeps its state or moves on: from unstarted to in progress, and from
in progress to done. -/
theorem Step.leafState (h : e.Step e') {s : LeafState} (hl : e.tree.cells[id]? = some (.leaf l s)) :
    ∃ s', e'.tree.cells[id]? = some (.leaf l s') ∧
      (s' = s ∨ s = .unstarted ∧ s' = .inProgress ∨ s = .inProgress ∧ ∃ v, s' = .done v) := by
  cases h with
  | stay => exact ⟨s, hl, .inl rfl⟩
  | @enter i l' h =>
    by_cases hi : id = i
    · subst hi
      cases h.symm.trans hl
      exact ⟨.inProgress, (Arena.leaf_setState_iff h).2 (.inl ⟨rfl, rfl, rfl⟩),
        .inr (.inl ⟨rfl, rfl⟩)⟩
    · exact ⟨s, (Arena.leaf_setState_iff h).2 (.inr ⟨hi, hl⟩), .inl rfl⟩
  | @leave i l' h _ v =>
    by_cases hi : id = i
    · subst hi
      cases h.symm.trans hl
      exact ⟨.done v, (Arena.leaf_setState_iff h).2 (.inl ⟨rfl, rfl, rfl⟩),
        .inr (.inr ⟨rfl, v, rfl⟩)⟩
    · exact ⟨s, (Arena.leaf_setState_iff h).2 (.inr ⟨hi, hl⟩), .inl rfl⟩

/-- What is done in the one is done in the other, with the same value. -/
def KeepsDone (e e' : Engine) : Prop :=
  ∀ (id : Nat) (l : Leaf) (v : Value), e.tree.cells[id]? = some (.leaf l (.done v)) →
    e'.tree.cells[id]? = some (.leaf l (.done v))

theorem Step.keepsDone (h : e.Step e') : e.KeepsDone e' := by
  intro id l v hl
  obtain ⟨s, hs, rfl | ⟨hdone, -⟩ | ⟨hdone, -⟩⟩ := h.leafState hl
  · exact hs
  · cases hdone
  · cases hdone

theorem pairwise_keepsDone {es : List Engine} (h : es.IsChain Step) : es.Pairwise KeepsDone := by
  have : IsTrans Engine KeepsDone := ⟨fun _ _ _ h h' id l v hl => h' id l v (h id l v hl)⟩
  exact List.isChain_iff_pairwise.1 (h.imp fun _ _ => Step.keepsDone)

end Engine

end TypedConfig

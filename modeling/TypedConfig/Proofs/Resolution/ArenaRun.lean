import Mathlib
import TypedConfig.Proofs.Resolution.ArenaEngine
import TypedConfig.Proofs.Resolution.Termination
import TypedConfig.Proofs.Tree.ArenaNodes
import TypedConfig.Resolver

/-!
# Runs in an arena

The engine does in the arena what the resolution does with the tree (`Simulates`): with the states
that leaves have at some progress in their cells, and with the leaves of the stack at the positions
on its own, it goes on to the same outcome, by the same lookups, and never leaves the arena or nests
too deep. Each change that it makes is a step, so that what steps keep holds at each moment of a run
(`Engine.orderly_run`).
-/

namespace TypedConfig

/-! ### What is kept -/

/-- From each moment to the next there is one step, from the start on, and where a cycle is
reported, the leaf is in progress. -/
structure Watch.Sound (a : Arena) (w : Watch) : Prop where
  chain : (Engine.start a :: w.moments.map Moment.engine).IsChain Engine.Step
  cycles : ∀ id e, ⟨.cycle id, e⟩ ∈ w.moments →
    ∃ l, e.tree.cells[id]? = some (.leaf l .inProgress)

/-- The place and the name of a lookup that is noted. -/
def Occasion.lookup? : Occasion → Option (Keypath × String)
  | lookup place name => some (place, name)
  | _ => none

/-- The place and the name of a lookup in a trace. -/
def Event.lookup? : Event → Option (Keypath × String)
  | lookup place name => some (place, name)
  | parse .. => none

/-- The lookups that were noted are those of the trace. -/
def Watch.Asks (w : Watch) (p : Progress) : Prop :=
  w.moments.filterMap (fun m => m.occasion.lookup?) = p.trace.filterMap Event.lookup?

/-- The engine is where the resolution of the tree is with some progress. -/
structure Following (a : Arena) (root : Node) (w : Watch) (p : Progress) : Prop where
  sound : w.Sound a
  asks : w.Asks p
  last : (Engine.start a :: w.moments.map Moment.engine).getLast? = some w.engine
  tree : w.engine.tree = a.showing p
  stack : List.Forall₂ (fun id l => root.nodes[id]? = some (.leaf l)) w.engine.stack p.stack

namespace Arena.Represents

variable {a : Arena} {root : Node} {id : Nat} {l : Leaf} {p q : Progress} (h : a.Represents root)
include h

theorem leaf_showing (hl : root.nodes[id]? = some (.leaf l)) (p : Progress) :
    (a.showing p).cells[id]? = some (.leaf l (p.state l)) := by
  rw [getElem?_showing, h.leaf hl]
  rfl

theorem leaf_of_showing {s : LeafState} (hl : (a.showing p).cells[id]? = some (.leaf l s)) :
    root.nodes[id]? = some (.leaf l) ∧ s = p.state l := by
  rw [getElem?_showing] at hl
  obtain ⟨c, hc, hshow⟩ := Option.map_eq_some_iff.1 hl
  cases c with
  | leaf l' s' =>
    cases hshow
    exact ⟨(h.leaf_of_cell hc).1, rfl⟩
  | _ => cases hshow

theorem showing_start : a.showing .start = a := by
  have hcells : a.cells.map (Cell.showing .start) = a.cells := by
    refine List.ext_getElem? fun i => ?_
    rw [List.getElem?_map]
    cases hc : a.cells[i]? with
    | none => rfl
    | some c =>
      cases c with
      | leaf l s =>
        rw [(h.leaf_of_cell hc).2]
        rfl
      | _ => rfl
  rw [showing, hcells]

/-- Changing the state of one leaf in the arena is what changes it in the progress. -/
theorem setState_showing (hl : root.nodes[id]? = some (.leaf l))
    (hne : ∀ l', l'.place ≠ l.place → q.state l' = p.state l') :
    (a.showing p).setState id (q.state l) = a.showing q := by
  have hcells : ((a.showing p).setState id (q.state l)).cells = (a.showing q).cells := by
    refine List.ext_getElem? fun i => ?_
    rw [getElem?_setState, getElem?_showing, getElem?_showing]
    cases hc : a.cells[i]? with
    | none => split <;> rfl
    | some c =>
      cases c with
      | leaf l' s =>
        obtain ⟨hl', -⟩ := h.leaf_of_cell hc
        split
        · next hi =>
          cases (hi ▸ hl').symm.trans hl
          rfl
        · next hi =>
          have hplace : l'.place ≠ l.place := fun heq => hi (h.eq_of_place hl' hl heq)
          exact congrArg (fun s => some (Cell.leaf l' s)) (hne l' hplace).symm
      | _ => split <;> rfl
  rw [Arena.mk.injEq]
  exact ⟨hcells, rfl⟩

end Arena.Represents

namespace Following

variable {a : Arena} {root : Node} {w : Watch} {p q : Progress} {id n : Nat} {l : Leaf} {v : Value}

theorem start (hrep : a.Represents root) : Following a root ⟨.start a, []⟩ .start where
  sound := ⟨.singleton _, nofun⟩
  asks := rfl
  last := rfl
  tree := hrep.showing_start.symm
  stack := .nil

theorem orderly (hrep : a.Represents root) (h : Following a root w p) : w.engine.Orderly a :=
  Engine.orderly_of_isChain h.sound.chain (.start hrep.showing_start) _
    (List.mem_of_getLast? h.last)

/-- One more moment. -/
theorem change {o : Occasion} {e : Engine} (h : Following a root w p) (hstep : w.engine.Step e)
    (ho : ∀ id, o = .cycle id → ∃ l, e.tree.cells[id]? = some (.leaf l .inProgress))
    (hasks : q.trace.filterMap Event.lookup? =
      p.trace.filterMap Event.lookup? ++ o.lookup?.toList)
    (htree : e.tree = a.showing q)
    (hstack : List.Forall₂ (fun id l => root.nodes[id]? = some (.leaf l)) e.stack q.stack) :
    Following a root ⟨e, w.moments ++ [⟨o, e⟩]⟩ q where
  sound := by
    constructor
    · rw [List.map_append, ← List.cons_append]
      refine h.sound.chain.append (.singleton e) fun e₁ he₁ e₂ he₂ => ?_
      cases h.last.symm.trans he₁
      cases he₂
      exact hstep
    · intro id e' hmem
      rcases List.mem_append.1 hmem with hmem | hmem
      · exact h.sound.cycles id e' hmem
      · cases List.mem_singleton.1 hmem
        exact ho id rfl
  asks := by
    rw [Watch.Asks, List.filterMap_append, hasks, h.asks]
    cases ho : o.lookup? <;> simp [ho]
  last := by
    rw [List.map_append, ← List.cons_append]
    exact List.getLast?_concat
  tree := htree
  stack := hstack

theorem note {o : Occasion} (h : Following a root w p) (hno : o.lookup? = none)
    (ho : ∀ id, o = .cycle id → ∃ l, w.engine.tree.cells[id]? = some (.leaf l .inProgress)) :
    Following a root ⟨w.engine, w.moments ++ [⟨o, w.engine⟩]⟩ p :=
  h.change .stay ho (by simp [hno]) h.tree h.stack

theorem lookup {place : Keypath} {name : String} (h : Following a root w p) :
    Following a root ⟨w.engine, w.moments ++ [⟨.lookup place name, w.engine⟩]⟩
      (p.log (.lookup place name)) :=
  h.change .stay nofun (by simp [Event.lookup?, Occasion.lookup?]) h.tree h.stack

theorem parse {place : Keypath} {type : LeafType} {text : String} (h : Following a root w p) :
    Following a root w (p.log (.parse place type text)) :=
  ⟨h.sound, h.asks.trans (by simp [Event.lookup?]), h.last, h.tree, h.stack⟩

theorem enter (hrep : a.Represents root) (h : Following a root w p)
    (hl : root.nodes[id]? = some (.leaf l)) (hs : p.state l = .unstarted) :
    Following a root ⟨w.engine.enter id, w.moments ++ [⟨.started id, w.engine.enter id⟩]⟩
      (p.enter l) := by
  have hcell := hrep.leaf_showing hl p
  rw [hs, ← h.tree] at hcell
  refine h.change (.enter hcell) nofun (List.append_nil _).symm ?_ ?_
  · have hne (l' : Leaf) (hplace : l'.place ≠ l.place) : (p.enter l).state l' = p.state l' := by
      rw [Progress.state_enter, if_neg fun heq => hplace heq.2]
    change w.engine.tree.setState id .inProgress = _
    rw [h.tree, ← hrep.setState_showing hl hne, Progress.state_enter_self hs]
  · exact List.rel_append h.stack (.cons hl .nil)

theorem leave (hrep : a.Represents root) (h : Following a root w p)
    (hl : root.nodes[id]? = some (.leaf l)) (hlast : w.engine.stack.getLast? = some id) :
    Following a root
      ⟨w.engine.pop.finish id v, w.moments ++ [⟨.finished id, w.engine.pop.finish id v⟩]⟩
      (p.leave l v) := by
  obtain ⟨l', hcell⟩ := ((h.orderly hrep).mem_iff id).1 (List.mem_of_getLast? hlast)
  have hpreset : l.preset = none := by
    rw [h.tree] at hcell
    obtain ⟨hl', hs⟩ := hrep.leaf_of_showing hcell
    cases hl'.symm.trans hl
    exact Progress.preset_of_inProgress hs.symm
  refine h.change (.leave hcell hlast v) nofun (List.append_nil _).symm ?_ ?_
  · have hne (l' : Leaf) (hplace : l'.place ≠ l.place) : (p.leave l v).state l' = p.state l' := by
      rw [Progress.state_leave, if_neg fun heq => hplace heq.2]
    change w.engine.tree.setState id (.done v) = _
    rw [h.tree, ← hrep.setState_showing hl hne, Progress.state_leave_self hpreset]
  · change List.Forall₂ _ w.engine.stack.dropLast p.stack.dropLast
    rw [List.dropLast_eq_take, List.dropLast_eq_take, h.stack.length_eq]
    exact List.forall₂_take _ h.stack

end Following

/-! ### What the engine does -/

theorem Progress.unstarted_leave_le {root : Node} {p : Progress} {l : Leaf} {v : Value} :
    (p.leave l v).unstarted root ≤ p.unstarted root := by
  refine List.countP_mono_left fun l' _ hl' => ?_
  rw [isUnstarted_iff, state_leave] at hl'
  split at hl'
  · cases hl'
  · rwa [isUnstarted_iff]

/-- The engine and the resolution end alike, in a value or an error, with the same lookups. With a
value they have come to the same point, and the stack is as it was. -/
inductive EndsAlike {α : Type} (a : Arena) (root : Node) (n : Nat) (stack : List Nat) :
    EStateM.Result Stop Watch α → EStateM.Result Error Progress α → Prop
  | ok {v : α} {w : Watch} {p : Progress} (h : Following a root w p)
      (hstack : w.engine.stack = stack) (hn : p.unstarted root < n) :
      EndsAlike a root n stack (.ok v w) (.ok v p)
  | error {e : Error} {w : Watch} {p : Progress} (h : w.Sound a) (hasks : w.Asks p) :
      EndsAlike a root n stack (.error (.error e) w) (.error e p)

/-- What the engine does is what the resolution does, while fewer than `n` leaves are unstarted. -/
def Simulates (a : Arena) (root : Node) (n : Nat) {α : Type} (x : Watching α) (y : Resolution α) :
    Prop :=
  ∀ w p, Following a root w p → p.unstarted root < n →
    EndsAlike a root n w.engine.stack (x w) (y p)

namespace Simulates

variable {a : Arena} {root : Node} {n : Nat} {α β : Type} {x : Watching α} {y : Resolution α}

theorem pure (v : α) : Simulates a root n (Pure.pure v) (Pure.pure v) :=
  fun _ _ h hn => .ok h rfl hn

theorem fail (e : Error) : Simulates a root n (Watching.fail (α := α) e) (throw e) :=
  fun _ _ h _ => .error h.sound h.asks

theorem bind {f : α → Watching β} {g : α → Resolution β} (hx : Simulates a root n x y)
    (hf : ∀ v, Simulates a root n (f v) (g v)) : Simulates a root n (x >>= f) (y >>= g) := by
  intro w p h hn
  have hends := hx w p h hn
  simp only [Bind.bind, EStateM.bind]
  generalize x w = r, y p = r' at hends ⊢
  cases hends with
  | ok h hstack hn =>
    rw [← hstack]
    exact hf _ _ _ h hn
  | error h hasks => exact .error h hasks

theorem map (f : α → β) (hx : Simulates a root n x y) :
    Simulates a root n (do return f (← x)) (do return f (← y)) :=
  hx.bind fun v => pure (f v)

theorem note {o : Occasion} (hno : o.lookup? = none) (ho : ∀ id, o ≠ .cycle id)
    (hx : Simulates a root n x y) : Simulates a root n (do Watching.note o; x) y :=
  fun _ p h hn => hx _ p (h.note hno fun id heq => absurd heq (ho id)) hn

/-! ### Nodes -/

section
variable {node : Nat → Watching Value} {again : Leaf → Resolution Value}

theorem entries {r : Nat → Node → Prop}
    (hr : ∀ id m, r id m → Simulates a root n (node id) (m.assemble again))
    {stored : List (String × Nat)} {children : List (String × Node)}
    (h : List.Forall₂ (fun c m => c.1 = m.1 ∧ r c.2 m.2) stored children) :
    Simulates a root n (Watching.resolveEntries node stored)
      (Node.assemble.assembleEntries again children) := by
  induction h with
  | nil => exact pure []
  | @cons c m stored children hc _ ih =>
    obtain ⟨k, id⟩ := c
    obtain ⟨k', m⟩ := m
    obtain ⟨rfl, hc⟩ := hc
    exact (hr id m hc).bind fun v => ih.map ((k, v) :: ·)

theorem items {r : Nat → Node → Prop}
    (hr : ∀ id m, r id m → Simulates a root n (node id) (m.assemble again))
    {ids : List Nat} {children : List Node} (h : List.Forall₂ r ids children) :
    Simulates a root n (Watching.resolveItems node ids)
      (Node.assemble.assembleItems again children) := by
  induction h with
  | nil => exact pure []
  | @cons id m ids children hc _ ih => exact (hr id m hc).bind fun v => ih.map (v :: ·)

end

theorem cell_bind {w : Watch} {p : Progress} {id : Nat} {c : Cell} (h : Following a root w p)
    (hc : a.cells[id]? = some c) (f : Cell → Watching β) :
    (Watching.cell id >>= f) w = f (c.showing p) w := by
  have hcell : w.engine.tree.cells[id]? = some (c.showing p) := by
    rw [h.tree, Arena.getElem?_showing, hc]
    rfl
  have hread : Watching.cell id w = .ok (c.showing p) w := by
    unfold Watching.cell
    simp only [Bind.bind, EStateM.bind, get, getThe, MonadStateOf.get, EStateM.get, hcell]
    rfl
  simp only [Bind.bind, EStateM.bind, hread]

/-- By induction on the height, which each child is below. -/
theorem node (hrep : a.Represents root) {leaf : Nat → Watching Value}
    {again : Leaf → Resolution Value}
    (hleaf : ∀ id l, root.nodes[id]? = some (.leaf l) → Simulates a root n (leaf id) (again l))
    {height id : Nat} {m : Node} (hid : id < height) (hm : root.nodes[id]? = some m) :
    Simulates a root n (Watching.resolveNode leaf height id) (m.assemble again) := by
  induction height generalizing id m with
  | zero => exact absurd hid (Nat.not_lt_zero _)
  | succ height ih =>
    have hchild (i : Nat) (m : Node) (h : root.IsBefore id i m) :
        Simulates a root n (Watching.resolveNode leaf height i) (m.assemble again) :=
      ih (Nat.lt_of_lt_of_le h.1 (Nat.le_of_lt_succ hid)) h.2
    rw [Watching.resolveNode]
    refine note rfl nofun fun w p h hn => ?_
    obtain ⟨c, hc, hrepresents⟩ := hrep.cell id m hm
    rw [cell_bind h hc]
    cases hrepresents with
    | dict hchildren => exact (entries hchild hchildren).map Value.dict w p h hn
    | list hchildren => exact (items hchild hchildren).map Value.list w p h hn
    | leaf l => exact hleaf id l hm w p h hn

/-! ### Names -/

/-- Following parts in the arena leads to where it leads in the tree. -/
theorem locate (hrep : a.Represents root) {w : Watch} {p : Progress} (h : Following a root w p)
    (parts : List String) {id : Nat} {m : Node} (hm : root.nodes[id]? = some m) :
    (Watching.locate id parts w = .ok none w ∧ m.locate? parts = none) ∨
      ∃ i found rest, Watching.locate id parts w = .ok (some (i, rest)) w ∧
        m.locate? parts = some (found, rest) ∧ root.nodes[i]? = some found := by
  induction parts generalizing id m with
  | nil => exact .inr ⟨id, m, [], rfl, rfl, hm⟩
  | cons part parts ih =>
    obtain ⟨c, hc, hrepresents⟩ := hrep.cell id m hm
    rw [Watching.locate, cell_bind h hc]
    cases hrepresents with
    | dict hchildren =>
      simp only [Cell.showing, Node.locate?]
      rcases lookup_forall₂ hchildren part with ⟨hnone, hnone'⟩ | ⟨i, child, hi, hchild, hbefore⟩
      · simp only [hnone, hnone']
        exact .inl ⟨rfl, trivial⟩
      · simp only [hi, hchild]
        exact ih hbefore.2
    | list hchildren =>
      simp only [Cell.showing, Node.locate?]
      cases Text.index? part with
      | none => exact .inl ⟨rfl, rfl⟩
      | some i =>
        obtain ⟨hlength, hzip⟩ := List.forall₂_iff_zip.1 hchildren
        simp only [Option.bind_some]
        rcases getElem?_related hlength (fun _ hmem => hzip hmem) i with
          ⟨hnone, hnone'⟩ | ⟨j, child, hj, hchild, hbefore⟩
        · simp only [hnone, hnone']
          exact .inl ⟨rfl, trivial⟩
        · simp only [hj, hchild]
          exact ih hbefore.2
    | leaf l =>
      rw [Node.locate?]
      · exact .inr ⟨id, .leaf l, part :: parts, rfl, rfl, hm⟩
      · simp

section
variable (hrep : a.Represents root) {s : Settings} {node : Nat → Watching Value}
  {again : Leaf → Resolution Value} {unknown : Error} {place : Keypath} {type : LeafType}
  {raw : Json}

theorem external {parts : List String} :
    Simulates a root n (Watching.followExternal s unknown parts)
      (Resolution.followExternal s unknown parts) := by
  unfold Watching.followExternal Resolution.followExternal
  cases s.externals.descend? parts with
  | none => exact fail unknown
  | some j => exact pure j

theorem parse {text : String} : Simulates a root n (Watching.parse s place type raw text)
    (Resolution.parse s place type raw text) := by
  intro w p h hn
  unfold Watching.parse Resolution.parse
  cases s.parsers.get type text with
  | ok v => exact pure v w _ h.parse hn
  | error e => exact fail _ w _ h.parse hn

variable (hnode : ∀ id m, root.nodes[id]? = some m →
  Simulates a root n (node id) (m.assemble again))
include hrep hnode

theorem internal {parts : List String} :
    Simulates a root n (Watching.followInternal node unknown parts)
      (Resolution.followInternal root (fun m => m.assemble again) unknown parts) := by
  intro w p h hn
  have htop : w.engine.tree.root = a.root := by
    rw [h.tree]
    rfl
  unfold Watching.followInternal Resolution.followInternal
  simp only [Bind.bind, EStateM.bind, get, getThe, MonadStateOf.get, EStateM.get, htop]
  rcases locate hrep h parts hrep.top with ⟨hnone, hnone'⟩ | ⟨i, m, rest, hsome, hsome', hm⟩
  · simp only [hnone, hnone']
    exact fail unknown w p h hn
  · simp only [hsome, hsome']
    refine (hnode i m hm).bind (fun v => ?_) w p h hn
    cases v.descend? rest with
    | none => exact fail unknown
    | some v => exact pure v

theorem lookup {name : String} : Simulates a root n (Watching.lookup s node place name)
    (Resolution.lookup s root (fun m => m.assemble again) place name) := by
  intro w p h hn
  unfold Watching.lookup Resolution.lookup
  cases s.target name with
  | internal parts => exact (internal hrep hnode).map Value.text _ _ h.lookup hn
  | external parts => exact external.map Json.scalarText _ _ h.lookup hn

end

theorem renderPieces {f : String → Watching String} {g : String → Resolution String}
    (h : ∀ name, Simulates a root n (f name) (g name)) (ps : List Template.Piece) :
    Simulates a root n (Template.renderPieces f ps) (Template.renderPieces g ps) := by
  induction ps with
  | nil => exact pure ""
  | cons piece ps ih =>
    have hpiece : Simulates a root n (piece.render f) (piece.render g) := by
      cases piece with
      | char c => exact pure c.toString
      | escape => exact pure "$\x7b"
      | reference body => exact h (Template.name body)
    exact hpiece.bind fun head => ih.map (head ++ ·)

theorem render {f : String → Watching String} {g : String → Resolution String}
    (h : ∀ name, Simulates a root n (f name) (g name)) (e : Nat → Template.Fault → Error)
    (t : Template) :
    Simulates a root n (t.render f fun position fault => Watching.fail (e position fault))
      (t.render g fun position fault => throw (e position fault)) := by
  refine (renderPieces h t.pieces).bind fun text => ?_
  cases t.fault with
  | none => exact pure text
  | some fault => exact fail (e fault.1 fault.2)

section
variable (hrep : a.Represents root) {s : Settings} {node : Nat → Watching Value}
  {again : Leaf → Resolution Value}
  (hnode : ∀ id m, root.nodes[id]? = some m → Simulates a root n (node id) (m.assemble again))
include hrep hnode

theorem resolveTyped {place : Keypath} {type : LeafType} {raw : Json} :
    Simulates a root n (Watching.resolveTyped s node place type raw)
      (Resolution.resolveTyped s root (fun m => m.assemble again) place type raw) := by
  cases raw with
  | string template => exact (render (fun name => lookup hrep hnode) _ _).bind fun text => parse
  | _ =>
    cases type with
    | any => exact pure _
    | scalar type => exact parse

theorem resolveAlias {place : Keypath} {container : Container} {name : String} :
    Simulates a root n (Watching.resolveAlias s node place container name)
      (Resolution.resolveAlias s root (fun m => m.assemble again) place container name) := by
  have hkind (v : Value) : Simulates a root n
      (if v.kind = container.kind then Pure.pure v
        else Watching.fail (.shape (.mismatch place container.kind v.kind)))
      (if v.kind = container.kind then Pure.pure v
        else throw (.shape (.mismatch place container.kind v.kind))) := by
    split
    · exact pure v
    · exact fail _
  unfold Watching.resolveAlias Resolution.resolveAlias
  cases s.target name with
  | internal parts => exact (internal hrep hnode).bind hkind
  | external parts => exact (external.map Value.ofJson).bind hkind

theorem resolveOpen (l : Leaf) : Simulates a root n (Watching.resolveOpen s node l)
    (Resolution.resolveOpen s root (fun m => m.assemble again) l) := by
  unfold Watching.resolveOpen Resolution.resolveOpen
  cases l.kind with
  | typed type => exact resolveTyped hrep hnode
  | «alias» container name => exact resolveAlias hrep hnode

end

/-! ### Leaves -/

theorem placeAt (hrep : a.Represents root) {w : Watch} {p : Progress} (h : Following a root w p)
    {id : Nat} {l : Leaf} (hl : root.nodes[id]? = some (.leaf l)) :
    Watching.placeAt id w = .ok l.place w := by
  rw [Watching.placeAt, cell_bind h (hrep.leaf hl)]
  rfl

theorem mapM_placeAt (hrep : a.Represents root) {w : Watch} {p : Progress}
    (h : Following a root w p) {ids : List Nat} {ls : List Leaf}
    (hids : List.Forall₂ (fun id l => root.nodes[id]? = some (.leaf l)) ids ls) :
    ids.mapM Watching.placeAt w = .ok (ls.map Leaf.place) w := by
  induction hids with
  | nil => rfl
  | cons hl _ ih =>
    rw [List.mapM_cons]
    simp only [Bind.bind, EStateM.bind, placeAt hrep h hl, ih]
    rfl

/-- A leaf is on the stack where its place is among those of the stack. -/
theorem idxOf?_eq (hrep : a.Represents root) {id : Nat} {l : Leaf}
    (hl : root.nodes[id]? = some (.leaf l)) {ids : List Nat} {ls : List Leaf}
    (hids : List.Forall₂ (fun id l => root.nodes[id]? = some (.leaf l)) ids ls) :
    ids.idxOf? id = (ls.map Leaf.place).idxOf? l.place := by
  induction hids with
  | nil => rfl
  | @cons i l' _ _ hl' _ ih =>
    have hsame : (i == id) = (l'.place == l.place) := by
      rw [Bool.eq_iff_iff, beq_iff_eq, beq_iff_eq]
      refine ⟨fun heq => ?_, hrep.eq_of_place hl' hl⟩
      cases (heq ▸ hl').symm.trans hl
      rfl
    rw [List.map_cons, List.idxOf?_cons, List.idxOf?_cons, hsame, ih]

theorem cycleError (hrep : a.Represents root) {w : Watch} {p : Progress}
    (h : Following a root w p) {id : Nat} {l : Leaf} (hl : root.nodes[id]? = some (.leaf l))
    (hs : p.state l = .inProgress) {stack : List Nat} :
    EndsAlike a root n stack (Watching.cycleError id w) (Resolution.reenter l p) := by
  have hcell := hrep.leaf_showing hl p
  rw [hs, ← h.tree] at hcell
  have h := h.note (o := .cycle id) rfl fun i heq => by
    cases heq
    exact ⟨l, hcell⟩
  let noted : Watch := ⟨w.engine, w.moments ++ [⟨.cycle id, w.engine⟩]⟩
  have hplaces := mapM_placeAt hrep h
    (List.forall₂_drop ((w.engine.stack.idxOf? id).getD 0) h.stack)
  have hrun : Watching.cycleError (α := Value) id w =
      .error (.error (.circularReference l.place (Resolution.cycle p.stack l.place))) noted := by
    change ((w.engine.stack.drop ((w.engine.stack.idxOf? id).getD 0)).mapM Watching.placeAt >>=
      fun cycle => Watching.placeAt id >>= fun place =>
        Watching.fail (.circularReference place (cycle ++ [place]))) noted = _
    simp only [Bind.bind, EStateM.bind, noted, hplaces, placeAt hrep h hl]
    rw [Resolution.cycle, ← idxOf?_eq hrep hl h.stack, ← List.map_drop]
    rfl
  rw [hrun]
  exact .error h.sound h.asks

theorem visit (hrep : a.Represents root) {s : Settings} {node : Nat → Watching Value}
    {again : Leaf → Resolution Value}
    (hnode : ∀ id m, root.nodes[id]? = some m → Simulates a root n (node id) (m.assemble again))
    {id : Nat} {l : Leaf} (hl : root.nodes[id]? = some (.leaf l)) :
    Simulates a root (n + 1) (Watching.visit s node id)
      (Resolution.visit s root again l) := by
  refine note rfl nofun fun w p h hn => ?_
  rw [cell_bind h (hrep.leaf hl)]
  simp only [Cell.showing]
  unfold Resolution.visit
  simp only [Bind.bind, EStateM.bind, get, getThe, MonadStateOf.get, EStateM.get]
  cases hs : p.state l with
  | done v => exact pure v w p h hn
  | inProgress => exact cycleError hrep h hl hs
  | unstarted =>
    -- a leaf that is started is one less to start, which bounds how deep visits nest
    have hmem : l ∈ root.leaves := Node.mem_leaves_iff.2 (List.mem_of_getElem? hl)
    have hn' : (p.enter l).unstarted root < n :=
      Nat.lt_of_lt_of_le (Progress.unstarted_enter hmem hs) (Nat.le_of_lt_succ hn)
    have hends := resolveOpen (s := s) hrep hnode l _ _ (h.enter hrep hl hs) hn'
    simp only [Watching.change, Watching.popAfter, modify, modifyGet, MonadStateOf.modifyGet,
      EStateM.modifyGet, EStateM.bind]
    generalize Watching.resolveOpen s node l _ = r,
      Resolution.resolveOpen s root _ l _ = r' at hends ⊢
    cases hends with
    | @ok v w' q h' hstack hq =>
      -- the visits within left the stack as it was, with this leaf last
      have hlast : w'.engine.stack.getLast? = some id := by
        rw [hstack]
        exact List.getLast?_concat
      have hdrop : w'.engine.stack.dropLast = w.engine.stack := by
        rw [hstack]
        exact List.dropLast_concat
      have hq : (q.leave l v).unstarted root < n :=
        Nat.lt_of_le_of_lt Progress.unstarted_leave_le hq
      exact .ok (h'.leave hrep hl hlast) hdrop (Nat.lt_succ_of_lt hq)
    | error h' hasks => exact .error ⟨h'.chain, h'.cycles⟩ hasks

theorem visitWithin (hrep : a.Represents root) {s : Settings}
    (beyond : Leaf → Resolution Value) (depth : Nat) {id : Nat} {l : Leaf}
    (hl : root.nodes[id]? = some (.leaf l)) :
    Simulates a root depth (Watching.visitWithin s a.cells.length depth id)
      (Resolution.visitWithin s root beyond depth l) := by
  induction depth generalizing id l with
  | zero => exact fun _ _ _ hn => absurd hn (Nat.not_lt_zero _)
  | succ depth ih =>
    refine visit hrep (fun i m hm => ?_) hl
    obtain ⟨hi, -⟩ := List.getElem?_eq_some_iff.1 hm
    exact node hrep (fun i l hl => ih hl) (Nat.lt_of_lt_of_eq hi hrep.size.symm) hm

end Simulates

/-! ### Runs -/

namespace Watch.Sound

variable {a : Arena} {root : Node} {w : Watch}

theorem orderly (hrep : a.Represents root) (h : w.Sound a) {m : Moment} (hm : m ∈ w.moments) :
    m.engine.Orderly a :=
  Engine.orderly_of_isChain h.chain (.start hrep.showing_start) _
    (List.mem_cons_of_mem _ (List.mem_map_of_mem hm))

theorem keepsDone (h : w.Sound a) :
    w.moments.Pairwise fun m m' => m.engine.KeepsDone m'.engine :=
  List.pairwise_map.1 (List.pairwise_cons.1 (Engine.pairwise_keepsDone h.chain)).2

theorem exists_idxOf? (hrep : a.Represents root) (h : w.Sound a) {id : Nat} {e : Engine}
    (hm : ⟨.cycle id, e⟩ ∈ w.moments) : ∃ i, e.stack.idxOf? id = some i := by
  have hmem : id ∈ e.stack := ((h.orderly hrep hm).mem_iff id).2 (h.cycles id e hm)
  cases hi : e.stack.idxOf? id with
  | none => exact absurd hmem (List.idxOf?_eq_none_iff.1 hi)
  | some i => exact ⟨i, rfl⟩

end Watch.Sound

theorem Node.length_openLeaves_le (root : Node) : root.openLeaves.length ≤ root.nodes.length :=
  (List.length_filter_le ..).trans (List.length_filterMap_le ..)

namespace Engine

variable {a : Arena} {root : Node}

/-- A run ends as the resolution of the tree does. -/
theorem endsAlike_resolveArena (hrep : a.Represents root) (s : Settings) :
    EndsAlike a root (a.cells.length + 1) [] (Watching.resolveArena s a ⟨start a, []⟩)
      (Resolution.resolveTree s root .start) := by
  have hsize : root.openLeaves.length ≤ a.cells.length :=
    root.length_openLeaves_le.trans_eq hrep.size.symm
  -- the tree is resolved by visits that may nest as deep as those of the engine
  obtain ⟨extra, hextra⟩ := Nat.exists_eq_add_of_le (Nat.succ_le_succ hsize)
  obtain ⟨-, hresolve⟩ := Resolution.resolveTree_eq_visitWithin s root Resolution.reenter extra
  have htop : a.root < a.cells.length := by
    obtain ⟨htop, -⟩ := List.getElem?_eq_some_iff.1 hrep.top
    exact Nat.lt_of_lt_of_eq htop hrep.size.symm
  have hleaf (i : Nat) (l : Leaf) (hl : root.nodes[i]? = some (.leaf l)) :=
    Simulates.visitWithin (s := s) hrep Resolution.reenter (a.cells.length + 1) hl
  rw [← hresolve, ← Nat.succ_eq_add_one root.openLeaves.length, ← hextra]
  refine Simulates.node hrep hleaf htop hrep.top _ _ (.start hrep) ?_
  exact Nat.lt_succ_of_le (Progress.unstarted_le.trans hsize)

/-- The engine resolves a configuration in its arena, with the outcome that it has as a tree, and
asks for the same names. At each call and each change, the stack lists the leaves in progress, each
of them once, and apart from the states of leaves the arena is as it was built. From one moment to
the next at most one leaf moves, from unstarted to in progress or from there to done, and what is
done stays as it is. Where a cycle is reported, the leaf that was come back to has a position on the
stack. -/
theorem orderly_run {r : Resolver} {raw : Json} {a : Arena} (hs : r.schema.DistinctKeys)
    (hraw : raw.DistinctKeys) (ha : Arena.ofConfig r.schema raw = .ok a) :
    let moments := (run r.settings a).2
    (r.settings.checkVariables = .ok () →
        (run r.settings a).1 = (r.resolve raw).mapError Stop.error ∧
        moments.filterMap (fun m => m.occasion.lookup?) =
          (r.trace raw).filterMap Event.lookup?) ∧
      (∀ m ∈ moments, m.engine.Orderly a) ∧
      (start a :: moments.map Moment.engine).IsChain Step ∧
      moments.Pairwise (fun m m' => m.engine.KeepsDone m'.engine) ∧
      ∀ id e, ⟨.cycle id, e⟩ ∈ moments → ∃ i, e.stack.idxOf? id = some i := by
  obtain ⟨root, hbuild, hrep⟩ := Arena.represents_ofConfig hs hraw ha
  have hends := endsAlike_resolveArena hrep r.settings
  unfold run Resolver.resolve Resolver.trace
  generalize hroot : Resolution.resolveTree r.settings root .start = y at hends
  generalize Watching.resolveArena r.settings a ⟨start a, []⟩ = x at hends ⊢
  cases hends with
  | @ok v w p h =>
    refine ⟨fun hv => ?_, fun m hm => h.sound.orderly hrep hm, h.sound.chain, h.sound.keepsDone,
      fun id e hm => h.sound.exists_idxOf? hrep hm⟩
    have hrun : r.run raw = (.ok v, p.trace) := by simp only [Resolver.run, hv, hbuild, hroot]
    rw [hrun]
    exact ⟨rfl, h.asks⟩
  | @error e w p h hasks =>
    refine ⟨fun hv => ?_, fun m hm => h.orderly hrep hm, h.chain, h.keepsDone,
      fun id e hm => h.exists_idxOf? hrep hm⟩
    have hrun : r.run raw = (.error e, p.trace) := by simp only [Resolver.run, hv, hbuild, hroot]
    rw [hrun]
    exact ⟨rfl, hasks⟩

/-- The first leaf leads to a cycle of the other two, of which the second is come back to. -/
theorem orderly_run_of_entry :
    let raw : Json := .object [("entry", .string "$\x7bthis.list\x7d"),
      ("list", .array [.string "$\x7bthis.back\x7d"]), ("back", .string "$\x7bthis.list\x7d")]
    ∃ a, Arena.ofConfig .any raw = .ok a ∧
      let moments := (run .initial a).2
      (run .initial a).1 = .error (.error (.circularReference ((Keypath.root.key "list").index 0)
        [(Keypath.root.key "list").index 0, Keypath.root.key "back",
          (Keypath.root.key "list").index 0])) ∧
      (∀ m ∈ moments, m.engine.Orderly a) ∧
      (start a :: moments.map Moment.engine).IsChain Step ∧
      moments.Pairwise (fun m m' => m.engine.KeepsDone m'.engine) ∧
      ∃ e, ⟨.cycle 1, e⟩ ∈ moments ∧ e.stack = [0, 1, 3] ∧ ∃ i, e.stack.idxOf? 1 = some i := by
  intro raw
  have hraw : raw.DistinctKeys := .object (by simp) (by simp)
  let a : Arena :=
    { cells := [
        .leaf ⟨Keypath.root.key "entry", .typed .any, .string "$\x7bthis.list\x7d", none⟩
          .unstarted,
        .leaf ⟨(Keypath.root.key "list").index 0, .typed .any, .string "$\x7bthis.back\x7d", none⟩
          .unstarted,
        .list (Keypath.root.key "list") [1],
        .leaf ⟨Keypath.root.key "back", .typed .any, .string "$\x7bthis.list\x7d", none⟩ .unstarted,
        .dict .root [("entry", 0), ("list", 2), ("back", 3)]],
      root := 4 }
  have ha : Arena.ofConfig .any raw = .ok a := rfl
  obtain ⟨hresult, horderly, hchain, hdone, hcycles⟩ :=
    orderly_run (r := .ofSchema .any) .any hraw ha
  have hresolve : (Resolver.ofSchema .any).resolve raw = .error (.circularReference
      ((Keypath.root.key "list").index 0) [(Keypath.root.key "list").index 0,
        Keypath.root.key "back", (Keypath.root.key "list").index 0]) := by cbv
  have hlast : (run .initial a).2.getLast?.map (fun m => (m.occasion, m.engine.stack)) =
      some (.cycle 1, [0, 1, 3]) := by cbv
  obtain ⟨⟨o, e⟩, hm, heq⟩ := Option.map_eq_some_iff.1 hlast
  obtain ⟨rfl, hstack⟩ := Prod.mk.inj heq
  have hmem := List.mem_of_getLast? hm
  refine ⟨a, ha, ?_, horderly, hchain, hdone, e, hmem, hstack, hcycles 1 e hmem⟩
  exact (hresult rfl).1.trans (congrArg _ hresolve)

end Engine

end TypedConfig

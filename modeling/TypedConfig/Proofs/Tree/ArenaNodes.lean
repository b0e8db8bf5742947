import TypedConfig.Proofs.Tree.ArenaWellFormed

/-!
# Nodes and their cells

In the arena that a configuration is built into, the cell of each node has the positions of the
cells of its children, which come before it (`Cell.Represents`). So each place is that of one
position only (`Arena.Represents.eq_of_place`).
-/

namespace TypedConfig

theorem forall₂_of_mapM {α β : Type} {f : α → Option β} {r : α → β → Prop} {xs : List α}
    {ys : List β} (h : xs.mapM f = some ys) (hr : ∀ x ∈ xs, ∀ y, f x = some y → r x y) :
    List.Forall₂ r xs ys := by
  induction xs generalizing ys with
  | nil =>
    cases h
    exact .nil
  | cons x xs ih =>
    obtain ⟨hx, hxs⟩ := List.forall_mem_cons.1 hr
    rw [List.mapM_cons] at h
    obtain ⟨y, hy, h⟩ := Option.bind_eq_some_iff.1 h
    obtain ⟨ys', hys, h⟩ := Option.bind_eq_some_iff.1 h
    cases h
    exact .cons (hx y hy) (ih hys hxs)

/-- The position is that of the node, and another one comes after it. -/
def Node.IsBefore (root : Node) (id i : Nat) (n : Node) : Prop := i < id ∧ root.nodes[i]? = some n

/-- The cell at a position is the node, with the cells of its children before it. -/
inductive Cell.Represents (root : Node) (id : Nat) : Cell → Node → Prop
  | dict {place : Keypath} {stored : List (String × Nat)} {children : List (String × Node)}
      (h : List.Forall₂ (fun c n => c.1 = n.1 ∧ root.IsBefore id c.2 n.2) stored children) :
      Represents root id (.dict place stored) (.dict place children)
  | list {place : Keypath} {ids : List Nat} {children : List Node}
      (h : List.Forall₂ (root.IsBefore id) ids children) :
      Represents root id (.list place ids) (.list place children)
  | leaf (l : Leaf) : Represents root id (.leaf l (Progress.start.state l)) (.leaf l)

namespace Arena

/-- The cells are the nodes of the tree, in their order, and no two of them have one place. -/
structure Represents (a : Arena) (root : Node) : Prop where
  size : a.cells.length = root.nodes.length
  cell : ∀ (id : Nat) (n : Node), root.nodes[id]? = some n →
    ∃ c : Cell, a.cells[id]? = some c ∧ c.Represents root id n
  top : root.nodes[a.root]? = some root
  places : (root.nodes.map Node.place).Nodup

namespace Holds

variable {cells : List Cell} {ids left : List Nat} {i : Nat} {root n : Node}
  (h : Holds [] cells ids left root.nodes) (hkeys : root.DistinctKeys)
include h hkeys

/-- With one child for each key, what is read from a cell is the node itself. -/
theorem unfold_nodes {depth : Nat} (hn : root.nodes[i]? = some n) (hdepth : i < depth) :
    unfold cells depth i = some n := by
  rw [h.unfold_eq hn hdepth, (hkeys.of_mem_nodes (List.mem_of_getElem? hn)).keyed_eq]

theorem getElem?_nodes {depth : Nat} (hi : i < cells.length) (hdepth : i < depth)
    (hn : unfold cells depth i = some n) : root.nodes[i]? = some n := by
  have hget := List.getElem?_eq_getElem (Nat.lt_of_lt_of_eq hi h.length)
  rw [← hn, h.unfold_nodes hkeys hget hdepth]
  exact hget

theorem child {c : Cell} (hc : cells[i]? = some c) {j : Nat} (hj : j ∈ c.children)
    (hn : unfold cells i j = some n) : root.IsBefore i j n := by
  have hlt : j < i := by simpa using h.adds.before i c hc j hj
  obtain ⟨hi, -⟩ := List.getElem?_eq_some_iff.1 hc
  exact ⟨hlt, h.getElem?_nodes hkeys (Nat.lt_trans hlt hi) hlt hn⟩

theorem exists_cell (hn : root.nodes[i]? = some n) :
    ∃ c, cells[i]? = some c ∧ c.Represents root i n := by
  have hunfold := h.unfold_nodes hkeys hn (Nat.lt_succ_self i)
  cases hc : cells[i]? with
  | none =>
    rw [unfold, hc] at hunfold
    cases hunfold
  | some c =>
    refine ⟨c, rfl, ?_⟩
    cases c with
    | dict place stored =>
      rw [unfold, hc] at hunfold
      obtain ⟨children, hchildren, heq⟩ := Option.bind_eq_some_iff.1 hunfold
      cases heq
      refine .dict (forall₂_of_mapM hchildren fun c hmem n hn => ?_)
      obtain ⟨m, hm, heq⟩ := Option.bind_eq_some_iff.1 hn
      cases heq
      exact ⟨rfl, h.child hkeys hc (List.mem_map_of_mem hmem) hm⟩
    | list place ids =>
      rw [unfold, hc] at hunfold
      obtain ⟨children, hchildren, heq⟩ := Option.bind_eq_some_iff.1 hunfold
      cases heq
      exact .list (forall₂_of_mapM hchildren fun c hmem n hn => h.child hkeys hc hmem hn)
    | leaf l s =>
      rw [unfold, hc] at hunfold
      cases hunfold
      rw [h.states l s (List.mem_of_getElem? hc)]
      exact .leaf l

end Holds

theorem represents_ofConfig {schema : Schema} {raw : Json} {a : Arena} (hs : schema.DistinctKeys)
    (hraw : raw.DistinctKeys) (h : ofConfig schema raw = .ok a) :
    ∃ root, Node.ofConfig schema raw = .ok root ∧ a.Represents root := by
  obtain ⟨root, hbuild, hlast, left, hholds, -⟩ := holds_ofConfig h
  have hkeys : root.DistinctKeys := Node.distinctKeys_build hs hraw hbuild
  exact ⟨root, (Node.ofConfig_eq_build hs hraw).trans hbuild, hholds.length,
    fun id n hn => hholds.exists_cell hkeys hn,
    Node.getElem?_nodes_last (hlast.trans hholds.length),
    ((Node.standsAt_build hbuild).nodesPlacedAt hkeys).nodup⟩

namespace Represents

variable {a : Arena} {root : Node} {id i : Nat} {l l' : Leaf} (h : a.Represents root)
include h

theorem leaf (hl : root.nodes[id]? = some (.leaf l)) :
    a.cells[id]? = some (.leaf l (Progress.start.state l)) := by
  obtain ⟨c, hc, hrep⟩ := h.cell id _ hl
  cases hrep
  exact hc

theorem leaf_of_cell {s : LeafState} (hl : a.cells[id]? = some (.leaf l s)) :
    root.nodes[id]? = some (.leaf l) ∧ s = Progress.start.state l := by
  obtain ⟨hid, -⟩ := List.getElem?_eq_some_iff.1 hl
  obtain ⟨n, hn⟩ : ∃ n, root.nodes[id]? = some n :=
    ⟨_, List.getElem?_eq_getElem (Nat.lt_of_lt_of_eq hid h.size)⟩
  obtain ⟨c, hc, hrep⟩ := h.cell id n hn
  cases hl.symm.trans hc
  cases hrep
  exact ⟨hn, rfl⟩

theorem eq_of_place (hl : root.nodes[id]? = some (.leaf l)) (hl' : root.nodes[i]? = some (.leaf l'))
    (hplace : l.place = l'.place) : id = i := by
  obtain ⟨hid, -⟩ := List.getElem?_eq_some_iff.1 hl
  refine (List.getElem?_inj (by rwa [List.length_map]) h.places).1 ?_
  rw [List.getElem?_map, List.getElem?_map, hl, hl']
  exact congrArg some hplace

end Represents

end Arena
end TypedConfig

import Mathlib
import TypedConfig.Proofs.Tree.Arena
import TypedConfig.Proofs.Tree.Origins
import TypedConfig.Proofs.Tree.Outline

/-!
# Well-formed arenas

A tree that is added to a sequence takes a stretch of new cells at its end. In the stretch each
cell comes after its children and is the child of one cell at most (`Adds`); the cells are the nodes
that have been built, in their order (`Holds`). A configuration is then built into a well-formed
arena, from which its tree is read (`wellFormed_ofConfig`).

A key of a dict that comes twice leaves the earlier child without a parent (`exists_without_parent`).
No key does if each is declared once, as in accepted schemas (`Schema.Accepted.distinctKeys`).
-/

namespace TypedConfig.Arena

/-! ### Parents and children -/

/-- In cells that are added at a position, each cell comes after its children. What is not a child of
exactly one of them, once, is one of the roots, or it is left without a parent. -/
structure Adds (start : Nat) (added : List Cell) (roots left : List Nat) : Prop where
  before : ∀ i c, added[i]? = some c → ∀ id ∈ c.children, id < start + i
  perm : (added.flatMap Cell.children ++ (roots ++ left)).Perm (List.range' start added.length)

namespace Adds

variable {start : Nat} {added added' : List Cell} {roots roots' left left' : List Nat}

theorem nil : Adds start [] [] [] := ⟨by simp, .nil⟩

theorem append (h : Adds start added roots left)
    (h' : Adds (start + added.length) added' roots' left') :
    Adds start (added ++ added') (roots ++ roots') (left ++ left') := by
  constructor
  · intro i c hc id hid
    rcases Nat.lt_or_ge i added.length with hi | hi
    · rw [List.getElem?_append_left hi] at hc
      exact h.before i c hc id hid
    · rw [List.getElem?_append_right hi] at hc
      have := h'.before _ c hc id hid
      omega
  · rw [List.length_append, ← List.range'_append_1, List.flatMap_append]
    refine .trans (List.perm_iff_count.2 fun id => ?_) (h.perm.append h'.perm)
    simp only [List.count_append]
    omega

/-- Roots that are replaced are left without a parent. -/
theorem replace (h : Adds start added roots left)
    (hperm : (roots' ++ left').Perm (roots ++ left)) : Adds start added roots' left' :=
  ⟨h.before, (hperm.append_left _).trans h.perm⟩

theorem lt_of_mem_roots (h : Adds start added roots left) {id : Nat} (hid : id ∈ roots) :
    id < start + added.length := by
  refine (List.mem_range'_1.1 (h.perm.mem_iff.1 (List.mem_append_right _ ?_))).2
  exact List.mem_append_left _ hid

/-- The roots become the children of one more cell. -/
theorem push (h : Adds start added roots left) {c : Cell} (hc : c.children = roots) :
    Adds start (added ++ [c]) [start + added.length] left := by
  constructor
  · intro i c' hc' id hid
    rcases Nat.lt_or_ge i added.length with hi | hi
    · rw [List.getElem?_append_left hi] at hc'
      exact h.before i c' hc' id hid
    · rw [List.getElem?_append_right hi] at hc'
      obtain rfl := List.mem_singleton.1 (List.mem_of_getElem? hc')
      have := h.lt_of_mem_roots (hc ▸ hid)
      omega
  · rw [List.flatMap_append, List.flatMap_singleton, hc, List.length_append, List.length_singleton,
      ← List.range'_append_1, List.range'_one]
    refine .trans (List.perm_iff_count.2 fun id => ?_) (h.perm.append_right _)
    simp only [List.count_append]
    omega

end Adds

/-! ### Trees from cells -/

/-- The tree at a position, if it ends before a depth. -/
def unfold (cells : List Cell) : (depth : Nat) → Nat → Option Node
  | 0, _ => none
  | depth + 1, id =>
    match cells[id]? with
    | some (.dict place children) => do
      return .dict place (← children.mapM fun c => do return (c.1, ← unfold cells depth c.2))
    | some (.list place children) => do return .list place (← children.mapM (unfold cells depth))
    | some (.leaf l _) => some (.leaf l)
    | none => none

theorem mapM_of_forall₂ {α β : Type} {f : α → Option β} {as : List α} {bs : List β}
    (h : List.Forall₂ (fun a b => f a = some b) as bs) : as.mapM f = some bs := by
  induction h with
  | nil => rfl
  | cons ha _ ih =>
    rw [List.mapM_cons, ha, ih]
    rfl

/-- The tree at a position, whatever comes after the cells. -/
def Shows (cells : List Cell) (id : Nat) (t : Node) : Prop :=
  ∀ after depth, id < depth → unfold (cells ++ after) depth id = some t

namespace Shows

variable {cells : List Cell} {id : Nat} {t : Node} {place : Keypath}

theorem append (h : Shows cells id t) (cells' : List Cell) : Shows (cells ++ cells') id t := by
  intro after depth hdepth
  rw [List.append_assoc]
  exact h _ depth hdepth

theorem leaf {l : Leaf} {s : LeafState} (hid : cells[id]? = some (.leaf l s)) :
    Shows cells id (.leaf l) := by
  intro after depth hdepth
  obtain ⟨depth, rfl⟩ := Nat.exists_eq_succ_of_ne_zero (Nat.ne_zero_of_lt hdepth)
  rw [unfold, List.getElem?_append_left (List.getElem?_eq_some_iff.1 hid).1, hid]

theorem list {ids : List Nat} {ts : List Node} (hid : cells[id]? = some (.list place ids))
    (hbefore : ∀ i ∈ ids, i < id) (h : List.Forall₂ (Shows cells) ids ts) :
    Shows cells id (.list place ts) := by
  intro after depth hdepth
  obtain ⟨depth, rfl⟩ := Nat.exists_eq_succ_of_ne_zero (Nat.ne_zero_of_lt hdepth)
  have hts : ids.mapM (unfold (cells ++ after) depth) = some ts := by
    refine mapM_of_forall₂ (((List.forall₂_and_left _ _).2 ⟨hbefore, h⟩).imp fun i t ⟨hi, ht⟩ => ?_)
    exact ht after depth (Nat.lt_of_lt_of_le hi (Nat.le_of_lt_succ hdepth))
  rw [unfold, List.getElem?_append_left (List.getElem?_eq_some_iff.1 hid).1, hid]
  dsimp only
  rw [hts]
  rfl

theorem dict {stored : List (String × Nat)} {ts : List (String × Node)}
    (hid : cells[id]? = some (.dict place stored)) (hbefore : ∀ c ∈ stored, c.2 < id)
    (h : List.Forall₂ (fun c t => c.1 = t.1 ∧ Shows cells c.2 t.2) stored ts) :
    Shows cells id (.dict place ts) := by
  intro after depth hdepth
  obtain ⟨depth, rfl⟩ := Nat.exists_eq_succ_of_ne_zero (Nat.ne_zero_of_lt hdepth)
  have hts : (stored.mapM fun c => do return (c.1, ← unfold (cells ++ after) depth c.2)) =
      some ts := by
    refine mapM_of_forall₂
      (((List.forall₂_and_left _ _).2 ⟨hbefore, h⟩).imp fun c t ⟨hc, hkey, ht⟩ => ?_)
    rw [ht after depth (Nat.lt_of_lt_of_le hc (Nat.le_of_lt_succ hdepth)), hkey]
    rfl
  rw [unfold, List.getElem?_append_left (List.getElem?_eq_some_iff.1 hid).1, hid]
  dsimp only
  rw [hts]
  rfl

end Shows

/-- Added cells are nodes, in their order, with the states that leaves have at the start. They unfold
to these nodes with one child for each key. -/
structure Holds (cells added : List Cell) (ids left : List Nat) (nodes : List Node) : Prop where
  adds : Adds cells.length added ids left
  states : ∀ l s, .leaf l s ∈ added → s = Progress.start.state l
  length : added.length = nodes.length
  shows : ∀ (i : Nat) (n : Node), nodes[i]? = some n →
    Shows (cells ++ added) (cells.length + i) n.keyed

namespace Holds

variable {cells added added' : List Cell} {ids ids' left left' : List Nat} {ns ns' : List Node}

theorem nil : Holds cells [] [] [] [] := ⟨.nil, by simp, rfl, by simp⟩

theorem append (h : Holds cells added ids left ns)
    (h' : Holds (cells ++ added) added' ids' left' ns') :
    Holds cells (added ++ added') (ids ++ ids') (left ++ left') (ns ++ ns') := by
  have hlength : (cells ++ added).length = cells.length + added.length := List.length_append
  constructor
  · exact h.adds.append (hlength ▸ h'.adds)
  · exact fun l s hl => (List.mem_append.1 hl).elim (h.states l s) (h'.states l s)
  · rw [List.length_append, List.length_append, h.length, h'.length]
  · intro i n hn
    rw [← List.append_assoc]
    rcases Nat.lt_or_ge i ns.length with hi | hi
    · rw [List.getElem?_append_left hi] at hn
      exact (h.shows i n hn).append added'
    · rw [List.getElem?_append_right hi] at hn
      have hid : (cells ++ added).length + (i - ns.length) = cells.length + i := by
        have := h.length
        omega
      exact hid ▸ h'.shows _ n hn

theorem replace (h : Holds cells added ids left ns)
    (hperm : (ids' ++ left').Perm (ids ++ left)) : Holds cells added ids' left' ns :=
  ⟨h.adds.replace hperm, h.states, h.length, h.shows⟩

/-- The roots become the children of one more node. -/
theorem push (h : Holds cells added ids left ns) {c : Cell} {n : Node} (hc : c.children = ids)
    (hstate : ∀ l s, c = .leaf l s → s = Progress.start.state l)
    (hn : Shows (cells ++ (added ++ [c])) (cells.length + added.length) n.keyed) :
    Holds cells (added ++ [c]) [cells.length + added.length] left (ns ++ [n]) := by
  constructor
  · exact h.adds.push hc
  · intro l s hl
    rcases List.mem_append.1 hl with hl | hl
    · exact h.states l s hl
    · exact hstate l s (List.mem_singleton.1 hl).symm
  · rw [List.length_append, List.length_append, h.length]
    rfl
  · intro i m hm
    rcases Nat.lt_or_ge i ns.length with hi | hi
    · rw [List.getElem?_append_left hi] at hm
      rw [← List.append_assoc]
      exact (h.shows i m hm).append [c]
    · rw [List.getElem?_append_right hi] at hm
      -- beyond the nodes that are there, only the new one is left
      obtain rfl := List.mem_singleton.1 (List.mem_of_getElem? hm)
      obtain ⟨hlt, -⟩ := List.getElem?_eq_some_iff.1 hm
      rw [List.length_singleton] at hlt
      have hi' : i = added.length := by
        have := h.length
        omega
      exact hi' ▸ hn

theorem getElem?_last (cells added : List Cell) (c : Cell) :
    (cells ++ (added ++ [c]))[cells.length + added.length]? = some c := by
  rw [← List.append_assoc, ← List.length_append, List.getElem?_concat_length]

theorem leaf (cells : List Cell) (l : Leaf) :
    Holds cells [.leaf l (Progress.start.state l)] [cells.length] [] [.leaf l] := by
  have hnil : Holds cells [] [] [] [] := nil
  refine hnil.push rfl (fun l' s hl' => ?_) (.leaf (getElem?_last cells [] _))
  cases hl'
  rfl

theorem list (h : Holds cells added ids left ns) {children : List Node}
    (hshows : List.Forall₂ (Shows (cells ++ added)) ids (children.map Node.keyed))
    (place : Keypath) :
    Holds cells (added ++ [.list place ids]) [cells.length + added.length] left
      (ns ++ [.list place children]) := by
  refine h.push rfl nofun ?_
  rw [Node.keyed, Node.keyedItems_eq_map]
  refine .list (getElem?_last ..) (fun i hi => h.adds.lt_of_mem_roots hi)
    (hshows.imp fun i t ht => ?_)
  rw [← List.append_assoc]
  exact ht.append _

theorem dict {stored : List (String × Nat)} {children : List (String × Node)}
    (h : Holds cells added (stored.map Prod.snd) left ns)
    (hshows : List.Forall₂ (fun c t => c.1 = t.1 ∧ Shows (cells ++ added) c.2 t.2) stored
      (Node.keyedEntries [] children)) (place : Keypath) :
    Holds cells (added ++ [.dict place stored]) [cells.length + added.length] left
      (ns ++ [.dict place children]) := by
  refine h.push rfl nofun ?_
  rw [Node.keyed]
  refine .dict (getElem?_last ..) (fun c hc => h.adds.lt_of_mem_roots (List.mem_map_of_mem hc))
    (hshows.imp fun c t ht => ⟨ht.1, ?_⟩)
  rw [← List.append_assoc]
  exact ht.2.append _

/-- The last of the cells of a tree shows the tree. -/
theorem shows_last {last : Cell} {n : Node} (h : Holds cells (added ++ [last]) ids left n.nodes) :
    Shows (cells ++ (added ++ [last])) (cells.length + added.length) n.keyed := by
  refine h.shows _ n (Node.getElem?_nodes_last ?_)
  rw [← h.length, List.length_append]
  rfl

end Holds

/-! ### Adding trees -/

/-- A tree that is added takes cells that hold it, its own node last. With one child for each key no
cell is left without a parent. -/
def Stores (n : Node) : Prop :=
  ∀ cells, ∃ added last left,
    n.store cells = (cells.length + added.length, cells ++ (added ++ [last])) ∧
      Holds cells (added ++ [last]) [cells.length + added.length] left n.nodes ∧
        (n.DistinctKeys → left = [])

theorem exists_storeItems {children : List Node} (h : ∀ n ∈ children, Stores n)
    (cells : List Cell) : ∃ added ids left,
      Node.storeItems children cells = (ids, cells ++ added) ∧
        Holds cells added ids left (children.flatMap Node.nodes) ∧
          List.Forall₂ (Shows (cells ++ added)) ids (children.map Node.keyed) ∧
            ((∀ n ∈ children, n.DistinctKeys) → left = []) := by
  induction children generalizing cells with
  | nil => exact ⟨[], [], [], by rw [List.append_nil]; rfl, .nil, .nil, fun _ => rfl⟩
  | cons n children ih =>
    obtain ⟨hn, hchildren⟩ := List.forall_mem_cons.1 h
    obtain ⟨added, last, left, hstore, hholds, hleft⟩ := hn cells
    obtain ⟨added', ids, left', hstores, hholds', hshows, hleft'⟩ :=
      ih hchildren (cells ++ (added ++ [last]))
    refine ⟨added ++ [last] ++ added', _ :: ids, left ++ left', ?_, hholds.append hholds', ?_, ?_⟩
    · rw [← List.append_assoc cells]
      change ((n.store cells).1 :: (Node.storeItems children (n.store cells).2).1,
        (Node.storeItems children (n.store cells).2).2) = _
      rw [hstore, hstores]
    · rw [← List.append_assoc cells]
      exact .cons (hholds.shows_last.append _) hshows
    · intro hkeys
      obtain ⟨hkeys, hkeys'⟩ := List.forall_mem_cons.1 hkeys
      rw [hleft hkeys, hleft' hkeys', List.append_nil]

/-- Children are added to those that are stored, with the trees that are kept for these. -/
theorem exists_storeEntries {children : List (String × Node)} (h : ∀ c ∈ children, Stores c.2)
    {cells added : List Cell} {stored : List (String × Nat)} {kept : List (String × Node)}
    {left : List Nat} {ns : List Node} (hholds : Holds cells added (stored.map Prod.snd) left ns)
    (hshows : List.Forall₂ (fun c t => c.1 = t.1 ∧ Shows (cells ++ added) c.2 t.2) stored kept) :
    ∃ added' stored' left',
      Node.storeEntries stored children (cells ++ added) = (stored', cells ++ added') ∧
        Holds cells added' (stored'.map Prod.snd) left'
          (ns ++ children.flatMap fun c => c.2.nodes) ∧
        List.Forall₂ (fun c t => c.1 = t.1 ∧ Shows (cells ++ added') c.2 t.2) stored'
          (Node.keyedEntries kept children) ∧
        ((stored.map Prod.fst ++ children.map Prod.fst).Nodup →
          (∀ c ∈ children, c.2.DistinctKeys) → left' = left) := by
  induction children generalizing added stored kept left ns with
  | nil =>
    refine ⟨added, stored, left, rfl, ?_, hshows, fun _ _ => rfl⟩
    rwa [List.flatMap_nil, List.append_nil]
  | cons c children ih =>
    obtain ⟨k, n⟩ := c
    obtain ⟨hn, hchildren⟩ := List.forall_mem_cons.1 h
    obtain ⟨added₁, last, left₁, hstore, hholds₁, hleft₁⟩ := hn (cells ++ added)
    obtain ⟨id, hid⟩ : ∃ id, id = (cells ++ added).length + added₁.length := ⟨_, rfl⟩
    rw [← hid] at hstore hholds₁
    have hlast : Shows (cells ++ (added ++ (added₁ ++ [last]))) id n.keyed := by
      rw [← List.append_assoc, hid]
      exact hholds₁.shows_last
    -- the child that had the key is left without a parent
    have hperm : ((Entries.insert k id stored).map Prod.snd ++
        ((stored.lookup k).toList ++ (left ++ left₁))).Perm
          (stored.map Prod.snd ++ [id] ++ (left ++ left₁)) := by
      rw [← List.append_assoc]
      exact (Entries.perm_insert k id stored).append_right _
    have hshows₁ : List.Forall₂
        (fun c t => c.1 = t.1 ∧ Shows (cells ++ (added ++ (added₁ ++ [last]))) c.2 t.2)
        (Entries.insert k id stored) (Entries.insert k n.keyed kept) := by
      refine forall₂_insert (hshows.imp fun c t ht => ⟨ht.1, ?_⟩) hlast
      rw [← List.append_assoc]
      exact ht.2.append _
    obtain ⟨added', stored', left', hstores, hholds', hshows', hleft'⟩ :=
      ih hchildren ((hholds.append hholds₁).replace hperm) hshows₁
    refine ⟨added', stored', left', ?_, ?_, hshows', fun hkeys hdistinct => ?_⟩
    · change Node.storeEntries (Entries.insert k (n.store (cells ++ added)).1 stored) children
        (n.store (cells ++ added)).2 = _
      rw [hstore, List.append_assoc, hstores]
    · rwa [List.flatMap_cons, ← List.append_assoc]
    · obtain ⟨hdistinct₁, hdistinct⟩ := List.forall_mem_cons.1 hdistinct
      have hk : k ∉ stored.map Prod.fst := fun hmem =>
        (List.nodup_append.1 hkeys).2.2 k hmem k (List.mem_cons_self ..) rfl
      have hkeys' : ((Entries.insert k id stored).map Prod.fst ++
          children.map Prod.fst).Nodup := by
        rw [Entries.insert_of_not_mem hk]
        simpa using hkeys
      rw [hleft' hkeys' hdistinct, lookup_eq_none_iff_not_mem.2 hk, hleft₁ hdistinct₁,
        List.append_nil]
      rfl

theorem stores_of_standsAt {n : Node} {place : Keypath} (h : n.StandsAt place) : Stores n := by
  induction h with
  | leaf l => exact fun cells => ⟨[], .leaf l (Progress.start.state l), [], rfl, .leaf cells l,
      fun _ => rfl⟩
  | @list place children _ ih =>
    intro cells
    have hc : ∀ n ∈ children, Stores n := fun n hn => by
      obtain ⟨i, hi⟩ := List.mem_iff_getElem?.1 hn
      exact ih i n hi
    obtain ⟨added, ids, left, hstore, hholds, hshows, hleft⟩ := exists_storeItems hc cells
    refine ⟨added, .list place ids, left, ?_, ?_, fun hkeys => ?_⟩
    · rw [Node.store]
      change push (.list place (Node.storeItems children cells).1)
        (Node.storeItems children cells).2 = _
      rw [hstore, push, List.length_append, List.append_assoc]
    · rw [Node.nodes, Node.nodesOfItems_eq_flatMap]
      exact hholds.list hshows place
    · cases hkeys with
      | list hkeys => exact hleft hkeys
  | @dict place children _ ih =>
    intro cells
    have hnil : Holds cells [] (([] : List (String × Nat)).map Prod.snd) [] [] := .nil
    obtain ⟨added, stored, left, hstore, hholds, hshows, hleft⟩ :=
      exists_storeEntries ih hnil (@List.Forall₂.nil _ _ _)
    rw [List.append_nil] at hstore
    refine ⟨added, .dict place stored, left, ?_, ?_, fun hkeys => ?_⟩
    · rw [Node.store]
      change push (.dict place (Node.storeEntries [] children cells).1)
        (Node.storeEntries [] children cells).2 = _
      rw [hstore, push, List.length_append, List.append_assoc]
    · rw [Node.nodes, Node.nodesOfEntries_eq_flatMap]
      exact hholds.dict hshows place
    · cases hkeys with
      | dict hkeys hdistinct => exact hleft hkeys hdistinct

/-! ### Well-formedness -/

/-- One node has another among its children. -/
def IsParent (a : Arena) (p id : Nat) : Prop := ∃ c, a.cells[p]? = some c ∧ id ∈ c.children

/-- Each node comes after its children, the root last, and no node is the child of two, or twice the
child of one. -/
structure WellFormed (a : Arena) : Prop where
  before : ∀ p id, a.IsParent p id → id < p
  parent : ∀ p q id, a.IsParent p id → a.IsParent q id → p = q
  once : ∀ c ∈ a.cells, c.children.Nodup
  last : a.root + 1 = a.cells.length

theorem Adds.wellFormed {cells : List Cell} {root : Nat} {left : List Nat}
    (h : Adds 0 cells [root] left) (hlast : root + 1 = cells.length) :
    WellFormed ⟨cells, root⟩ := by
  have hnodup : (cells.flatMap Cell.children).Nodup :=
    (List.nodup_append.1 (h.perm.nodup_iff.2 List.nodup_range')).1
  obtain ⟨honce, hdisjoint⟩ := List.nodup_flatMap.1 hnodup
  refine ⟨?_, fun p q id hp hq => ?_, honce, hlast⟩
  · rintro p id ⟨c, hc, hid⟩
    simpa using h.before p c hc id hid
  · obtain ⟨c, hp, hchild⟩ := hp
    obtain ⟨c', hq, hchild'⟩ := hq
    -- two parents would share a child
    obtain ⟨hplt, rfl⟩ := List.getElem?_eq_some_iff.1 hp
    obtain ⟨hqlt, rfl⟩ := List.getElem?_eq_some_iff.1 hq
    by_contra hne
    rcases Nat.lt_or_gt_of_ne hne with hlt | hlt
    · exact List.pairwise_iff_getElem.1 hdisjoint p q hplt hqlt hlt hchild hchild'
    · exact List.pairwise_iff_getElem.1 hdisjoint q p hqlt hplt hlt hchild' hchild

theorem Adds.exists_isParent {cells : List Cell} {root id : Nat} (h : Adds 0 cells [root] [])
    (hid : id < cells.length) (hne : id ≠ root) : ∃ p, IsParent ⟨cells, root⟩ p id := by
  have hrange : id ∈ List.range' 0 cells.length :=
    List.mem_range'_1.2 ⟨Nat.zero_le _, by simpa using hid⟩
  have hmem := h.perm.mem_iff.2 hrange
  rw [List.append_nil, List.mem_append, List.mem_singleton, or_iff_left hne] at hmem
  obtain ⟨c, hc, hchild⟩ := List.mem_flatMap.1 hmem
  obtain ⟨p, hp⟩ := List.mem_iff_getElem?.1 hc
  exact ⟨p, c, hp, hchild⟩

end TypedConfig.Arena

namespace TypedConfig

/-! ### Leaves -/

/-- What a leaf has from the beginning: null, where the document has null and may have it, or the
default of a key that the document does not have. -/
def Leaf.Given (schema : Schema) (raw : Json) (l : Leaf) (v : Value) : Prop :=
  (v = .null ∧ raw.reach? l.place.segments = some .null ∧
    ∃ sub, schema.DeclaredAt l.place.segments sub ∧ sub.isNullable = true) ∨
  (raw.reach? l.place.segments = none ∧ ∃ sub, schema.DefaultAt l.place.segments sub v)

namespace Node

variable {schema : Schema} {raw : Json} {place : Keypath} {l : Leaf} {v : Value}

theorem preset_of_standIn {container : Container} {nullable : Bool}
    (h : standIn? place container nullable raw = some (leaf l)) (hv : l.preset = some v) :
    v = .null ∧ raw = .null ∧ nullable = true := by
  rcases cases_of_standIn h with ⟨hraw, hnull, heq⟩ | ⟨s, name, -, -, heq⟩
  · cases heq
    exact ⟨(Option.some.inj hv).symm, hraw, hnull⟩
  · cases heq
    cases hv

theorem preset_of_build (h : build schema place raw = .ok (leaf l)) (hv : l.preset = some v) :
    v = .null ∧ raw = .null ∧ schema.isNullable = true := by
  cases schema with
  | any =>
    cases raw with
    | null =>
      cases h
      exact ⟨(Option.some.inj hv).symm, rfl, rfl⟩
    | _ =>
      cases h <;> cases hv
  | scalar type nullable =>
    rcases cases_of_ofScalar h with ⟨hraw, hnull, heq⟩ | ⟨-, heq⟩
    · cases heq
      exact ⟨(Option.some.inj hv).symm, hraw, hnull⟩
    · cases heq
      cases hv
  | list element nullable =>
    rcases build_list_eq_ok_iff.1 h with hn | ⟨items, children, -, heq, -⟩
    · exact preset_of_standIn hn hv
    · cases heq
  | dict required optional extra nullable =>
    rcases build_dict_eq_ok_iff.1 h with hn | ⟨entries, cs₁, cs₂, cs₃, -, heq, -⟩
    · exact preset_of_standIn hn hv
    · cases heq

theorem ComesFrom.given (h : ComesFrom schema raw .root l.place.segments (leaf l))
    (hv : l.preset = some v) : l.Given schema raw v := by
  generalize hn : leaf l = n at h
  cases h with
  | part hsub hj hbuild =>
    subst hn
    obtain ⟨rfl, rfl, hnull⟩ := preset_of_build hbuild hv
    exact .inl ⟨rfl, hj, _, hsub, hnull⟩
  | @default sub d hsub hj hd =>
    have hpreset : l.preset = some d := congrArg Leaf.preset (Node.leaf.inj hn)
    cases hpreset.symm.trans hv
    exact .inr ⟨hj, sub, hd⟩

end Node

/-! ### Built arenas -/

namespace Arena

/-- The arena of a configuration holds what is built from it, and nothing else. -/
theorem holds_ofConfig {schema : Schema} {raw : Json} {a : Arena} (h : ofConfig schema raw = .ok a) :
    ∃ n, Node.build schema .root raw = .ok n ∧ a.root + 1 = a.cells.length ∧
      ∃ left, Holds [] a.cells [a.root] left n.nodes ∧ (n.DistinctKeys → left = []) := by
  obtain ⟨n, hbuild, hstore⟩ := ofConfig_eq_ok_iff.1 h
  obtain ⟨added, last, left, hadded, hholds, hleft⟩ :=
    stores_of_standsAt (Node.standsAt_build hbuild) []
  obtain ⟨hid, hcells⟩ := Prod.mk.inj (hstore.symm.trans hadded)
  rw [List.nil_append] at hcells
  refine ⟨n, hbuild, ?_, left, by rwa [hid, hcells], hleft⟩
  rw [hid, hcells, List.length_nil, Nat.zero_add, List.length_append, List.length_singleton]

namespace Holds

variable {cells : List Cell} {ids left : List Nat} {n : Node} (h : Holds [] cells ids left n.nodes)
include h

theorem unfold_eq {i depth : Nat} {m : Node} (hm : n.nodes[i]? = some m) (hdepth : i < depth) :
    unfold cells depth i = some m.keyed := by
  have hshows := h.shows i m hm [] depth (by simpa using hdepth)
  rwa [List.nil_append, List.append_nil, List.length_nil, Nat.zero_add] at hshows

theorem mem_leaves {l : Leaf} {s : LeafState} (hl : .leaf l s ∈ cells) : l ∈ n.leaves := by
  obtain ⟨i, hi⟩ := List.mem_iff_getElem?.1 hl
  obtain ⟨hlt, -⟩ := List.getElem?_eq_some_iff.1 hi
  have hm := List.getElem?_eq_getElem (Nat.lt_of_lt_of_eq hlt h.length)
  have hunfold := h.unfold_eq hm (Nat.lt_succ_self i)
  rw [unfold, hi, Option.some.injEq] at hunfold
  rw [Node.mem_leaves_iff, ← Node.eq_leaf_of_keyed hunfold.symm]
  exact List.mem_of_getElem? hm

end Holds

/-- A configuration is built into a well-formed arena, in which each node but the root has a parent
if each key is declared once. Its cells are the nodes that are built, in their order; from each of
them the tree below it is read within as many levels as there are cells up to it, and from the root
the tree of the configuration. A leaf that stands for a container has a sole reference for its text,
and a leaf that is done has a null or a default; no other leaf is started. -/
theorem wellFormed_ofConfig {schema : Schema} {raw : Json} {a : Arena} (hraw : raw.DistinctKeys)
    (h : ofConfig schema raw = .ok a) :
    a.WellFormed ∧
      (schema.DistinctKeys → ∀ id < a.cells.length, id ≠ a.root → ∃ p, a.IsParent p id) ∧
      (∃ n, Node.build schema .root raw = .ok n ∧ a.cells.length = n.size ∧
        ∀ id m, n.nodes[id]? = some m →
          ∀ depth, id < depth → unfold a.cells depth id = some m.keyed) ∧
      (∃ root, Node.ofConfig schema raw = .ok root ∧
        ∀ depth, a.root < depth → unfold a.cells depth a.root = some root) ∧
      ∀ l s, .leaf l s ∈ a.cells →
        l.AliasText ∧ (s = .unstarted ∨ ∃ v, s = .done v ∧ l.Given schema raw v) := by
  obtain ⟨n, hbuild, hlast, left, hholds, hleft⟩ := holds_ofConfig h
  refine ⟨hholds.adds.wellFormed hlast, fun hs id hid hne => ?_, ⟨n, hbuild, hholds.length, ?_⟩,
    ⟨n.keyed, Node.ofConfig_eq_ok_iff.2 ⟨n, hbuild, rfl⟩, fun depth hdepth => ?_⟩, ?_⟩
  · have hadds := hholds.adds
    rw [hleft (Node.distinctKeys_build hs hraw hbuild)] at hadds
    exact hadds.exists_isParent hid hne
  · exact fun id m hm depth hdepth => hholds.unfold_eq hm hdepth
  · exact hholds.unfold_eq (Node.getElem?_nodes_last (hlast.trans hholds.length)) hdepth
  · intro l s hl
    have hmem := hholds.mem_leaves hl
    refine ⟨(Node.standsAt_build hbuild).aliasText l hmem, ?_⟩
    rw [hholds.states l s hl]
    cases hpreset : l.preset with
    | none => exact .inl (Progress.state_start l hpreset)
    | some v =>
      have horigin := Node.comesFrom_of_build hraw hbuild (Node.mem_leaves_iff.1 hmem)
      exact .inr ⟨v, Progress.state_of_preset _ l hpreset, horigin.given hpreset⟩

/-- A list of ports, a reference to it, a default and a null. -/
theorem wellFormed_of_ports :
    let ports : Schema := .list (.scalar .string false) false
    let schema : Schema := .dict [("ports", ports), ("spare", ports)]
      [("zone", .scalar .string false, some (.string "local"))] (some .any) false
    let raw : Json := .object [("note", .null), ("spare", .string "$\x7bthis.ports\x7d"),
      ("ports", .array [.string "80", .string "443"])]
    ∃ a, ofConfig schema raw = .ok a ∧ a.root = 6 ∧
      a.cells.map Cell.children = [[], [], [0, 1], [], [], [], [2, 3, 4, 5]] ∧
      a.WellFormed ∧
      (∀ id < a.cells.length, id ≠ a.root → ∃ p, a.IsParent p id) ∧
      (∃ n, Node.build schema .root raw = .ok n ∧ a.cells.length = n.size ∧
        ∀ id m, n.nodes[id]? = some m →
          ∀ depth, id < depth → unfold a.cells depth id = some m.keyed) ∧
      (∃ root, Node.ofConfig schema raw = .ok root ∧
        ∀ depth, a.root < depth → unfold a.cells depth a.root = some root) ∧
      ∀ l s, .leaf l s ∈ a.cells →
        l.AliasText ∧ (s = .unstarted ∨ ∃ v, s = .done v ∧ l.Given schema raw v) := by
  intro ports schema raw
  have hs : schema.DistinctKeys := by
    have hports : ports.DistinctKeys := .list (.scalar ..)
    exact .dict (by decide) (by simp [hports]) (by simp [Schema.DistinctKeys.scalar])
      (by simp [Schema.DistinctKeys.any])
  have hraw : raw.DistinctKeys := by simp [raw]
  have hbuild : Node.build schema .root raw = .ok (.dict .root [
      ("ports", .list (Keypath.root.key "ports") [
        Node.openLeaf ((Keypath.root.key "ports").index 0) (.scalar .string) (.string "80"),
        Node.openLeaf ((Keypath.root.key "ports").index 1) (.scalar .string) (.string "443")]),
      ("spare", .leaf ⟨Keypath.root.key "spare", .alias .list "this.ports",
        .string "$\x7bthis.ports\x7d", none⟩),
      ("zone", Node.presetLeaf (Keypath.root.key "zone") (.scalar .string) .null (.string "local")),
      ("note", Node.presetLeaf (Keypath.root.key "note") .any .null .null)]) := by cbv
  have harena := (ofConfig_eq_ok_iff (a := ⟨_, _⟩)).2 ⟨_, hbuild, rfl⟩
  obtain ⟨hwell, hparents, htree⟩ := wellFormed_ofConfig hraw harena
  exact ⟨_, harena, rfl, rfl, hwell, hparents hs, htree⟩

/-- A key that is required, and optional as well: the node for the requirement is not the root, and it
is not the child of any node. -/
theorem exists_without_parent :
    let schema : Schema := .dict [("port", .scalar .integer false)]
      [("port", .scalar .string false, none)] none false
    ∃ a, ofConfig schema (.object [("port", .string "1")]) = .ok a ∧ a.root = 2 ∧
      a.cells.map Cell.children = [[], [], [1]] ∧ ∀ p, ¬ a.IsParent p 0 := by
  intro schema
  have hbuild : Node.build schema .root (.object [("port", .string "1")]) = .ok (.dict .root [
      ("port", Node.openLeaf (Keypath.root.key "port") (.scalar .integer) (.string "1")),
      ("port", Node.openLeaf (Keypath.root.key "port") (.scalar .string) (.string "1"))]) := by cbv
  obtain ⟨a, harena, hroot, hchildren⟩ : ∃ a, ofConfig schema (.object [("port", .string "1")]) =
      .ok a ∧ a.root = 2 ∧ a.cells.map Cell.children = [[], [], [1]] :=
    ⟨_, (ofConfig_eq_ok_iff (a := ⟨_, _⟩)).2 ⟨_, hbuild, rfl⟩, rfl, rfl⟩
  refine ⟨a, harena, hroot, hchildren, ?_⟩
  rintro p ⟨c, hc, hmem⟩
  have hc : c.children ∈ a.cells.map Cell.children := List.mem_map_of_mem (List.mem_of_getElem? hc)
  rw [hchildren] at hc
  simp only [List.mem_cons, List.not_mem_nil, or_false, or_self_left] at hc
  rcases hc with hc | hc
  · rw [hc] at hmem
    cases hmem
  · rw [hc] at hmem
    exact absurd (List.mem_singleton.1 hmem) (by decide)

end Arena
end TypedConfig

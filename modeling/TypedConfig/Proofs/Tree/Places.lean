import Mathlib.Data.List.Nodup
import TypedConfig.Proofs.Tree.Built

/-!
# Places of nodes

A tree is built with each node at the place of its parent and one step more (`Node.StandsAt`). With
one child for each key (`Node.DistinctKeys`) the steps below a node differ, so that no two nodes share
a place (`Node.StandsAt.nodesPlacedAt`). The tree of a configuration has one child for each key,
whatever the schema declares, so that no two of its leaves share a place
(`Node.distinctPlaces_ofConfig`).
-/

namespace TypedConfig

/-- The text of a leaf that stands for a container is the reference to it. -/
def Leaf.AliasText (l : Leaf) : Prop :=
  ∀ container name, l.kind = .alias container name →
    ∃ s, l.raw = .string s ∧ Template.soleReference? s = some name

namespace Node

/-- No two leaves share a place. -/
def DistinctPlaces (n : Node) : Prop := (n.leaves.map Leaf.place).Nodup

theorem DistinctPlaces.eq_of_place {n : Node} (h : n.DistinctPlaces) {l l' : Leaf}
    (hl : l ∈ n.leaves) (hl' : l' ∈ n.leaves) (heq : l.place = l'.place) : l = l' :=
  List.inj_on_of_nodup_map h hl hl' heq

/-- The leaves of a node have different places, all of them at or below a place. -/
structure PlacedAt (n : Node) (place : Keypath) : Prop where
  below : ∀ l ∈ n.leaves, place.segments <+: l.place.segments
  nodup : n.DistinctPlaces

/-! ### Nodes of a node -/

theorem nodesOfEntries_eq_flatMap (children : List (String × Node)) :
    nodesOfEntries children = children.flatMap fun c => c.2.nodes := by
  induction children with
  | nil => rfl
  | cons c children ih => rw [nodesOfEntries, ih, List.flatMap_cons]

theorem nodesOfItems_eq_flatMap (children : List Node) :
    nodesOfItems children = children.flatMap nodes := by
  induction children with
  | nil => rfl
  | cons c children ih => rw [nodesOfItems, ih, List.flatMap_cons]

@[simp] theorem mem_nodes_dict {place : Keypath} {children : List (String × Node)} {n : Node} :
    n ∈ (dict place children).nodes ↔ (∃ c ∈ children, n ∈ c.2.nodes) ∨ n = dict place children := by
  rw [nodes, nodesOfEntries_eq_flatMap, List.mem_append, List.mem_flatMap, List.mem_singleton]

@[simp] theorem mem_nodes_list {place : Keypath} {children : List Node} {n : Node} :
    n ∈ (list place children).nodes ↔ (∃ c ∈ children, n ∈ c.nodes) ∨ n = list place children := by
  rw [nodes, nodesOfItems_eq_flatMap, List.mem_append, List.mem_flatMap, List.mem_singleton]

@[simp] theorem mem_nodes_leaf {l : Leaf} {n : Node} : n ∈ (leaf l).nodes ↔ n = leaf l := by
  rw [nodes, List.mem_singleton]

theorem getElem?_nodes_last {n : Node} {i : Nat} (h : i + 1 = n.nodes.length) :
    n.nodes[i]? = some n := by
  obtain ⟨before, hnodes⟩ : ∃ before, n.nodes = before ++ [n] := by
    cases n with
    | leaf l => exact ⟨[], rfl⟩
    | _ => exact ⟨_, rfl⟩
  rw [hnodes, List.length_append] at h
  rw [hnodes, Nat.add_right_cancel h, List.getElem?_concat_length]

theorem mem_leaves_iff {n : Node} {l : Leaf} : l ∈ n.leaves ↔ leaf l ∈ n.nodes := by
  rw [leaves, List.mem_filterMap]
  constructor
  · rintro ⟨m, hm, hl⟩
    cases m with
    | leaf l' =>
      cases hl
      exact hm
    | _ => cases hl
  · exact fun h => ⟨leaf l, h, rfl⟩

theorem places_leaves_sublist (n : Node) :
    (n.leaves.map Leaf.place).Sublist (n.nodes.map place) := by
  rw [leaves]
  induction n.nodes with
  | nil => exact .slnil
  | cons m ns ih =>
    cases m with
    | leaf l => exact ih.cons_cons l.place
    | _ => exact ih.cons _

/-! ### Places of nodes -/

/-- The nodes from a node on down have different places, all of them at or below a place. -/
structure NodesPlacedAt (n : Node) (place : Keypath) : Prop where
  below : ∀ m ∈ n.nodes, place.segments <+: m.place.segments
  nodup : (n.nodes.map Node.place).Nodup

theorem NodesPlacedAt.placedAt {n : Node} {place : Keypath} (h : n.NodesPlacedAt place) :
    n.PlacedAt place where
  below _ hl := h.below _ (mem_leaves_iff.1 hl)
  nodup := (places_leaves_sublist n).nodup h.nodup

theorem eq_of_push_below {place p : Keypath} {s t : Segment}
    (hs : (place.push s).segments <+: p.segments) (ht : (place.push t).segments <+: p.segments) :
    s = t := by
  have h : (place.push s).segments = (place.push t).segments :=
    (List.prefix_of_prefix_length_le hs ht (by simp [Keypath.push])).eq_of_length
      (by simp [Keypath.push])
  simpa [Keypath.push] using h

/-- A node with children at different steps from it. -/
theorem nodesPlacedAt_of_children {n : Node} {children : List (Segment × Node)}
    (hnodes : n.nodes = (children.flatMap fun c => c.2.nodes) ++ [n])
    (hsteps : (children.map Prod.fst).Nodup)
    (hc : ∀ c ∈ children, c.2.NodesPlacedAt (n.place.push c.1)) : n.NodesPlacedAt n.place := by
  have hbelow : ∀ m ∈ children.flatMap fun c => c.2.nodes,
      ∃ s, (n.place.push s).segments <+: m.place.segments := by
    intro m hm
    obtain ⟨c, hmem, hm⟩ := List.mem_flatMap.1 hm
    exact ⟨c.1, (hc c hmem).below m hm⟩
  refine ⟨fun m hm => ?_, ?_⟩
  · rw [hnodes, List.mem_append, List.mem_singleton] at hm
    rcases hm with hm | rfl
    · obtain ⟨s, hs⟩ := hbelow m hm
      exact (List.prefix_append ..).trans hs
    · exact List.prefix_rfl
  · rw [hnodes, List.map_append, List.map_flatMap]
    refine List.nodup_append.2 ⟨List.nodup_flatMap.2 ⟨fun c hmem => (hc c hmem).nodup, ?_⟩,
      List.nodup_singleton _, ?_⟩
    · refine (List.pairwise_map.1 hsteps).imp_of_mem fun {c c'} hmem hmem' hne p hp hp' => ?_
      obtain ⟨m, hm, rfl⟩ := List.mem_map.1 hp
      obtain ⟨m', hm', heq⟩ := List.mem_map.1 hp'
      exact hne (eq_of_push_below ((hc c hmem).below m hm) (heq ▸ (hc c' hmem').below m' hm'))
    · rintro p hp q hq rfl
      rw [← List.map_flatMap] at hp
      obtain ⟨m, hm, rfl⟩ := List.mem_map.1 hp
      obtain ⟨s, hs⟩ := hbelow m hm
      have hlength := hs.length_le
      rw [List.mem_singleton.1 hq, Keypath.push, List.length_append] at hlength
      exact Nat.not_succ_le_self _ hlength

theorem nodesPlacedAt_dict {place : Keypath} {children : List (String × Node)}
    (hkeys : (children.map Prod.fst).Nodup)
    (hc : ∀ c ∈ children, c.2.NodesPlacedAt (place.key c.1)) :
    (dict place children).NodesPlacedAt place := by
  have hsteps : (children.map fun c => Segment.key c.1).Nodup := by
    have := List.Pairwise.map (S := (· ≠ ·)) Segment.key
      (fun a b hab h => hab (Segment.key.inj h)) hkeys
    rwa [List.map_map] at this
  refine @nodesPlacedAt_of_children (dict place children)
    (children.map fun c => (.key c.1, c.2)) ?_ (by rwa [List.map_map]) fun c hmem => ?_
  · rw [nodes, nodesOfEntries_eq_flatMap, List.flatMap_map]
  · obtain ⟨c', hmem', rfl⟩ := List.mem_map.1 hmem
    exact hc c' hmem'

theorem nodesPlacedAt_list {place : Keypath} {children : List Node}
    (hc : ∀ (i : Nat) (n : Node), children[i]? = some n → n.NodesPlacedAt (place.index i)) :
    (list place children).NodesPlacedAt place := by
  have hsteps : (children.zipIdx.map fun c => Segment.index c.2).Nodup := by
    have := List.Pairwise.map (S := (· ≠ ·)) Segment.index
      (fun a b hab h => hab (Segment.index.inj h)) (List.nodup_range' (s := 0) (n := children.length))
    rwa [← List.zipIdx_map_snd, List.map_map] at this
  refine @nodesPlacedAt_of_children (list place children)
    (children.zipIdx.map fun c => (.index c.2, c.1)) ?_ (by rwa [List.map_map]) fun c hmem => ?_
  · rw [nodes, nodesOfItems_eq_flatMap, List.flatMap_map]
    congr 1
    have := List.flatMap_map (f := Prod.fst) (g := nodes) children.zipIdx
    rwa [List.zipIdx_map_fst] at this
  · obtain ⟨⟨n, i⟩, hmem', rfl⟩ := List.mem_map.1 hmem
    exact hc i n (List.mem_zipIdx_iff_getElem?.1 hmem')

/-- The node is at the place, with its children one step further each, at their keys or at their
positions. -/
inductive StandsAt : Node → Keypath → Prop
  | leaf (l : Leaf) (halias : l.AliasText) : StandsAt (leaf l) l.place
  | list {place : Keypath} {children : List Node}
      (hc : ∀ (i : Nat) (n : Node), children[i]? = some n → StandsAt n (place.index i)) :
      StandsAt (list place children) place
  | dict {place : Keypath} {children : List (String × Node)}
      (hc : ∀ c ∈ children, StandsAt c.2 (place.key c.1)) : StandsAt (dict place children) place

/-- No dict has two children with one key. -/
inductive DistinctKeys : Node → Prop
  | leaf (l : Leaf) : DistinctKeys (leaf l)
  | list {place : Keypath} {children : List Node} (hc : ∀ n ∈ children, DistinctKeys n) :
      DistinctKeys (list place children)
  | dict {place : Keypath} {children : List (String × Node)}
      (hkeys : (children.map Prod.fst).Nodup) (hc : ∀ c ∈ children, DistinctKeys c.2) :
      DistinctKeys (dict place children)

theorem StandsAt.typed {l : Leaf} {type : LeafType} (h : l.kind = .typed type) :
    (Node.leaf l).StandsAt l.place := by
  refine .leaf l fun container name halias => ?_
  rw [h] at halias
  cases halias

theorem StandsAt.place_eq {n : Node} {place : Keypath} (h : n.StandsAt place) : n.place = place := by
  cases h <;> rfl

theorem StandsAt.nodesPlacedAt {n : Node} {place : Keypath} (h : n.StandsAt place)
    (hkeys : n.DistinctKeys) : n.NodesPlacedAt place := by
  induction h with
  | leaf l => exact ⟨by simp [Node.place], by simp [nodes]⟩
  | list _ ih =>
    cases hkeys with
    | list hc => exact nodesPlacedAt_list fun i n hn => ih i n hn (hc n (List.mem_of_getElem? hn))
  | dict _ ih =>
    cases hkeys with
    | dict hkeys hc => exact nodesPlacedAt_dict hkeys fun c hmem => ih c hmem (hc c hmem)

theorem StandsAt.placedAt {n : Node} {place : Keypath} (h : n.StandsAt place)
    (hkeys : n.DistinctKeys) : n.PlacedAt place :=
  (h.nodesPlacedAt hkeys).placedAt

/-! ### One child for each key -/

theorem keyedItems_eq_map (children : List Node) : keyedItems children = children.map keyed := by
  induction children with
  | nil => rfl
  | cons n children ih => rw [keyedItems, List.map_cons, ih]

theorem mem_keyedEntries {kept children : List (String × Node)} {c : String × Node}
    (h : c ∈ keyedEntries kept children) : c ∈ kept ∨ ∃ c' ∈ children, c = (c'.1, c'.2.keyed) := by
  induction children generalizing kept with
  | nil => exact .inl h
  | cons c' children ih =>
    rcases ih h with h | ⟨c'', hmem, rfl⟩
    · rcases Entries.mem_insert h with rfl | h
      · exact .inr ⟨c', List.mem_cons_self .., rfl⟩
      · exact .inl h
    · exact .inr ⟨c'', List.mem_cons_of_mem _ hmem, rfl⟩

theorem nodup_keyedEntries {kept : List (String × Node)} (h : (kept.map Prod.fst).Nodup)
    (children : List (String × Node)) : ((keyedEntries kept children).map Prod.fst).Nodup := by
  induction children generalizing kept with
  | nil => exact h
  | cons c children ih => exact ih (Entries.nodup_insert h)

theorem keyedEntries_of_nodup {kept children : List (String × Node)}
    (hkeys : ((kept ++ children).map Prod.fst).Nodup)
    (hc : ∀ c ∈ children, c.2.keyed = c.2) : keyedEntries kept children = kept ++ children := by
  induction children generalizing kept with
  | nil => rw [keyedEntries, List.append_nil]
  | cons c children ih =>
    obtain ⟨k, n⟩ := c
    obtain ⟨hn, hc⟩ := List.forall_mem_cons.1 hc
    have hk : k ∉ kept.map Prod.fst := by
      rw [List.map_append] at hkeys
      exact fun hmem => (List.nodup_append.1 hkeys).2.2 k hmem k (List.mem_cons_self ..) rfl
    rw [keyedEntries, hn, Entries.insert_of_not_mem hk, ih (by simpa using hkeys) hc,
      List.append_assoc, List.singleton_append]

theorem DistinctKeys.keyed_eq {n : Node} (h : n.DistinctKeys) : n.keyed = n := by
  induction h with
  | leaf => rfl
  | list _ ih => rw [keyed, keyedItems_eq_map, List.map_congr_left ih, List.map_id']
  | dict hkeys _ ih => rw [keyed, @keyedEntries_of_nodup [] _ hkeys ih, List.nil_append]

theorem DistinctKeys.of_mem_nodes {n m : Node} (h : n.DistinctKeys) (hm : m ∈ n.nodes) :
    m.DistinctKeys := by
  induction h with
  | leaf l => exact mem_nodes_leaf.1 hm ▸ .leaf l
  | list hc ih =>
    rcases mem_nodes_list.1 hm with ⟨c, hmem, hm⟩ | rfl
    · exact ih c hmem hm
    · exact .list hc
  | dict hkeys hc ih =>
    rcases mem_nodes_dict.1 hm with ⟨c, hmem, hm⟩ | rfl
    · exact ih c hmem hm
    · exact .dict hkeys hc

theorem eq_leaf_of_keyed {n : Node} {l : Leaf} (h : n.keyed = leaf l) : n = leaf l := by
  cases n with
  | leaf l' => exact h
  | _ => cases h

theorem StandsAt.keyed {n : Node} {place : Keypath} (h : n.StandsAt place) :
    n.keyed.StandsAt place := by
  induction h with
  | leaf l halias => exact .leaf l halias
  | list _ ih =>
    rw [Node.keyed, keyedItems_eq_map]
    refine .list fun i n hn => ?_
    rw [List.getElem?_map] at hn
    obtain ⟨m, hm, rfl⟩ := Option.map_eq_some_iff.1 hn
    exact ih i m hm
  | dict _ ih =>
    rw [Node.keyed]
    refine .dict fun c hmem => ?_
    rcases mem_keyedEntries hmem with hmem | ⟨c', hmem', rfl⟩
    · cases hmem
    · exact ih c' hmem'

theorem StandsAt.leaves_keyed_subset {n : Node} {place : Keypath} (h : n.StandsAt place) :
    n.keyed.leaves ⊆ n.leaves := by
  induction h with
  | leaf l => exact List.Subset.refl _
  | list _ ih =>
    intro l hl
    rw [Node.keyed, keyedItems_eq_map, leaves_list] at hl
    obtain ⟨_, hmem, hl⟩ := List.mem_flatMap.1 hl
    obtain ⟨m, hm, rfl⟩ := List.mem_map.1 hmem
    obtain ⟨i, hi⟩ := List.mem_iff_getElem?.1 hm
    rw [leaves_list]
    exact List.mem_flatMap.2 ⟨m, hm, ih i m hi hl⟩
  | dict _ ih =>
    intro l hl
    rw [Node.keyed, leaves_dict] at hl
    obtain ⟨c, hmem, hl⟩ := List.mem_flatMap.1 hl
    rcases mem_keyedEntries hmem with hmem | ⟨c', hmem', rfl⟩
    · cases hmem
    · rw [leaves_dict]
      exact List.mem_flatMap.2 ⟨c', hmem', ih c' hmem' hl⟩

theorem StandsAt.distinctKeys_keyed {n : Node} {place : Keypath} (h : n.StandsAt place) :
    n.keyed.DistinctKeys := by
  induction h with
  | leaf l => exact .leaf l
  | list _ ih =>
    rw [Node.keyed, keyedItems_eq_map]
    refine .list fun n hn => ?_
    obtain ⟨m, hm, rfl⟩ := List.mem_map.1 hn
    obtain ⟨i, hi⟩ := List.mem_iff_getElem?.1 hm
    exact ih i m hi
  | dict _ ih =>
    rw [Node.keyed]
    refine .dict (nodup_keyedEntries (by simp) _) fun c hmem => ?_
    rcases mem_keyedEntries hmem with hmem | ⟨c', hmem', rfl⟩
    · cases hmem
    · exact ih c' hmem'

/-! ### Built trees -/

theorem ofAnyEntries_eq_map (place : Keypath) (entries : List (String × Json)) :
    ofAnyEntries place entries = entries.map fun e => (e.1, ofAny (place.key e.1) e.2) := by
  induction entries with
  | nil => rfl
  | cons e entries ih => simp [ofAnyEntries, ih]

theorem getElem?_ofAnyItems (place : Keypath) (position : Nat) (items : List Json) (i : Nat) :
    (ofAnyItems place position items)[i]? =
      items[i]?.map fun j => ofAny (place.index (position + i)) j := by
  induction items generalizing position i with
  | nil => simp [ofAnyItems]
  | cons j items ih => cases i with
    | zero => simp [ofAnyItems]
    | succ i => simp [ofAnyItems, ih, Nat.add_assoc, Nat.add_comm 1]

mutual

theorem standsAt_ofAny : ∀ (j : Json) (place : Keypath), (ofAny place j).StandsAt place
  | .object entries, place => by
    rw [ofAny, ofAnyEntries_eq_map]
    refine .dict fun c hc => ?_
    obtain ⟨e, he, rfl⟩ := List.mem_map.1 hc
    exact standsAt_ofAnyEntries entries e he _
  | .array items, place => by
    rw [ofAny]
    refine .list fun i n hn => ?_
    rw [getElem?_ofAnyItems, Nat.zero_add] at hn
    obtain ⟨j, hj, rfl⟩ := Option.map_eq_some_iff.1 hn
    exact standsAt_ofAnyItems items j (List.mem_of_getElem? hj) _
  | .null, _ | .bool _, _ | .number _, _ | .string _, _ => .typed rfl

theorem standsAt_ofAnyEntries : ∀ entries : List (String × Json), ∀ e ∈ entries,
    ∀ place : Keypath, (ofAny place e.2).StandsAt place
  | [] => nofun
  | (_, j) :: entries => List.forall_mem_cons.2 ⟨standsAt_ofAny j, standsAt_ofAnyEntries entries⟩

theorem standsAt_ofAnyItems : ∀ items : List Json, ∀ j ∈ items, ∀ place : Keypath,
    (ofAny place j).StandsAt place
  | [] => nofun
  | j :: items => List.forall_mem_cons.2 ⟨standsAt_ofAny j, standsAt_ofAnyItems items⟩

end

theorem standsAt_standIn {place : Keypath} {container : Container} {nullable : Bool} {raw : Json}
    {n : Node} (h : standIn? place container nullable raw = some n) : n.StandsAt place := by
  rcases cases_of_standIn h with ⟨-, -, rfl⟩ | ⟨s, name, -, hname, rfl⟩
  · exact .typed rfl
  · refine .leaf _ fun container' name' hk => ?_
    cases hk
    exact ⟨s, rfl, hname⟩

theorem standsAt_ofScalar {place : Keypath} {type : ScalarType} {nullable : Bool} {raw : Json}
    {n : Node} (h : ofScalar place type nullable raw = .ok n) : n.StandsAt place := by
  rcases cases_of_ofScalar h with ⟨-, -, rfl⟩ | ⟨-, rfl⟩
  · exact .typed rfl
  · exact .typed rfl

/-- What is left over for the further keys has none of the declared ones. -/
theorem nodup_declared_append {declared : List String} (hdeclared : declared.Nodup)
    {entries : List (String × Json)} (hkeys : (entries.map Prod.fst).Nodup) :
    (declared ++ (entries.filter fun e => !declared.contains e.1).map Prod.fst).Nodup := by
  refine List.nodup_append.2 ⟨hdeclared, (List.filter_sublist.map Prod.fst).nodup hkeys, ?_⟩
  rintro a ha b hb rfl
  obtain ⟨e, he, rfl⟩ := List.mem_map.1 hb
  simpa [ha] using (List.mem_filter.1 he).2

theorem standsAt_build {schema : Schema} {place : Keypath} {raw : Json} {n : Node}
    (h : build schema place raw = .ok n) : n.StandsAt place := by
  induction schema using Schema.induct generalizing place raw n with
  | any =>
    cases h
    exact standsAt_ofAny raw place
  | scalar type nullable => exact standsAt_ofScalar h
  | list element nullable ih =>
    rcases build_list_eq_ok_iff.1 h with hn | ⟨items, children, -, rfl, hc⟩
    · exact standsAt_standIn hn
    · refine .list fun i n hi => ?_
      obtain ⟨j, -, hn⟩ := exists_item_of_ofItems hc hi
      rw [Nat.zero_add] at hn
      exact ih hn
  | dict required optional extra nullable hrequired hoptional hextra =>
    rcases build_dict_eq_ok_iff.1 h with hn | ⟨entries, cs₁, cs₂, cs₃, -, rfl, h₁, h₂, h₃⟩
    · exact standsAt_standIn hn
    · refine .dict fun c hc => ?_
      rw [List.mem_append, List.mem_append] at hc
      rcases hc with (hc | hc) | hc
      · obtain ⟨_, he, ⟨-, hn⟩⟩ := exists_of_mem_children (buildRequired_eq_ok_iff.1 h₁) hc
        exact hrequired _ he hn
      · obtain ⟨_, he, ⟨-, hn⟩ | _⟩ := exists_of_mem_children (buildOptional_eq_ok_iff.1 h₂) hc
        · exact hoptional _ he hn
        · exact .typed rfl
      · obtain ⟨_, -, ⟨hs, hn⟩⟩ := exists_of_mem_children (ofExtra_eq_ok_iff.1 h₃) hc
        exact hextra _ hs hn

section
variable {schema : Schema} {raw : Json} {root : Node} (h : ofConfig schema raw = .ok root)
include h

theorem standsAt_ofConfig : root.StandsAt .root := by
  obtain ⟨n, hn, rfl⟩ := ofConfig_eq_ok_iff.1 h
  exact (standsAt_build hn).keyed

theorem distinctKeys_ofConfig : root.DistinctKeys := by
  obtain ⟨n, hn, rfl⟩ := ofConfig_eq_ok_iff.1 h
  exact (standsAt_build hn).distinctKeys_keyed

theorem distinctPlaces_ofConfig : root.DistinctPlaces :=
  ((standsAt_ofConfig h).placedAt (distinctKeys_ofConfig h)).nodup

end

end Node
end TypedConfig

import TypedConfig.Proofs.Lookup
import TypedConfig.Proofs.Resolution.Equations
import TypedConfig.Proofs.Steps
import TypedConfig.Proofs.Tree.Places

/-!
# Outlines of trees

The outline of a tree is the tree without the texts of its leaves (`Node.outline`). Trees with one
outline that have the same leaves are the same (`Node.eq_of_mapLeaves`), and parts lead to nodes with
one outline in them (`Node.locate?_mapLeaves`). In the value of a tree, the value of a leaf is found
at its place (`Node.StandsAt.reach?_value`).
-/

namespace TypedConfig

/-- A leaf without its text, and without the name that is read off the text. -/
def Leaf.outline (l : Leaf) : Leaf :=
  { l with
    raw := .null
    kind := match l.kind with
      | .typed type => .typed type
      | .alias container _ => .alias container "" }

theorem Leaf.place_outline (l : Leaf) : l.outline.place = l.place := rfl

theorem Leaf.eq_of_outline {l l' : Leaf} (hl : l.AliasText) (hl' : l'.AliasText)
    (h : l.outline = l'.outline) (hraw : l.raw = l'.raw) : l = l' := by
  obtain ⟨place, kind, raw, preset⟩ := l
  obtain ⟨place', kind', raw', preset'⟩ := l'
  obtain rfl : raw = raw' := hraw
  simp only [outline, mk.injEq, true_and] at h
  obtain ⟨rfl, hkind, rfl⟩ := h
  cases kind with
  | typed type =>
    cases kind' with
    | typed type' =>
      cases hkind
      rfl
    | «alias» => cases hkind
  | «alias» container name =>
    cases kind' with
    | typed => cases hkind
    | «alias» container' name' =>
      cases hkind
      obtain ⟨s, hs, hname⟩ := hl container name rfl
      obtain ⟨t, ht, hname'⟩ := hl' container name' rfl
      cases hs.symm.trans ht
      cases hname.symm.trans hname'
      rfl

namespace Node

variable {f : Leaf → Leaf}

mutual

/-- A tree with other leaves in the same places. -/
def mapLeaves (f : Leaf → Leaf) : Node → Node
  | dict place children => dict place (mapEntries f children)
  | list place children => list place (mapItems f children)
  | leaf l => leaf (f l)

/-- The entries of a dict with other leaves. -/
def mapEntries (f : Leaf → Leaf) : List (String × Node) → List (String × Node)
  | [] => []
  | (k, child) :: children => (k, mapLeaves f child) :: mapEntries f children

/-- The items of a list with other leaves. -/
def mapItems (f : Leaf → Leaf) : List Node → List Node
  | [] => []
  | child :: children => mapLeaves f child :: mapItems f children

end

/-- A tree without the texts of its leaves. -/
def outline (n : Node) : Node := n.mapLeaves Leaf.outline

theorem lookup_mapEntries (children : List (String × Node)) (key : String) :
    (mapEntries f children).lookup key = (children.lookup key).map (mapLeaves f) := by
  induction children with
  | nil => simp [mapEntries]
  | cons c children ih =>
    obtain ⟨k, child⟩ := c
    simp only [mapEntries, List.lookup_cons, ih]
    cases key == k <;> rfl

theorem getElem?_mapItems (children : List Node) (i : Nat) :
    (mapItems f children)[i]? = children[i]?.map (mapLeaves f) := by
  induction children generalizing i with
  | nil => simp [mapItems]
  | cons child children ih => cases i <;> simp [mapItems, ih]

theorem locate?_mapLeaves (n : Node) (parts : List String) :
    (n.mapLeaves f).locate? parts =
      (n.locate? parts).map fun found => (found.1.mapLeaves f, found.2) := by
  induction parts generalizing n with
  | nil => simp [locate?]
  | cons part parts ih =>
    cases n with
    | leaf l =>
      rw [mapLeaves, locate?, locate?]
      · rfl
      · simp
      · simp
    | dict place children =>
      rw [mapLeaves, locate?, locate?, lookup_mapEntries]
      cases children.lookup part with
      | none => rfl
      | some child => exact ih child
    | list place children =>
      rw [mapLeaves, locate?, locate?]
      cases Text.index? part with
      | none => rfl
      | some i =>
        simp only [Option.bind_some, getElem?_mapItems]
        cases children[i]? with
        | none => rfl
        | some child => exact ih child

mutual

theorem leaves_mapLeaves : ∀ n : Node, (n.mapLeaves f).leaves = n.leaves.map f
  | leaf l => by simp [mapLeaves]
  | dict _ children => by
    rw [mapLeaves, leaves_dict, leaves_dict, flatMap_mapEntries children]
  | list _ children => by
    rw [mapLeaves, leaves_list, leaves_list, flatMap_mapItems children]

theorem flatMap_mapEntries : ∀ children : List (String × Node),
    ((mapEntries f children).flatMap fun c => c.2.leaves) =
      (children.flatMap fun c => c.2.leaves).map f
  | [] => rfl
  | (k, child) :: children => by
    rw [mapEntries, List.flatMap_cons, List.flatMap_cons, List.map_append, leaves_mapLeaves child,
      flatMap_mapEntries children]

theorem flatMap_mapItems : ∀ children : List Node,
    (mapItems f children).flatMap leaves = (children.flatMap leaves).map f
  | [] => rfl
  | child :: children => by
    rw [mapItems, List.flatMap_cons, List.flatMap_cons, List.map_append, leaves_mapLeaves child,
      flatMap_mapItems children]

end

mutual

/-- The leaves decide between trees that only differ in leaves. -/
theorem eq_of_mapLeaves : ∀ n n' : Node, n.mapLeaves f = n'.mapLeaves f →
    (∀ l ∈ n.leaves, ∀ l' ∈ n'.leaves, f l = f l' → l = l') → n = n'
  | leaf l, leaf l', h, hinj => by
    rw [mapLeaves, mapLeaves, leaf.injEq] at h
    rw [hinj l (by simp) l' (by simp) h]
  | dict place children, dict place' children', h, hinj => by
    rw [mapLeaves, mapLeaves, dict.injEq] at h
    rw [h.1, eq_of_mapEntries children children' h.2 fun c hc c' hc' l hl l' hl' =>
      hinj l (mem_leaves_dict hc hl) l' (mem_leaves_dict hc' hl')]
  | list place children, list place' children', h, hinj => by
    rw [mapLeaves, mapLeaves, list.injEq] at h
    rw [h.1, eq_of_mapItems children children' h.2 fun c hc c' hc' l hl l' hl' =>
      hinj l (mem_leaves_list hc hl) l' (mem_leaves_list hc' hl')]

theorem eq_of_mapEntries : ∀ children children' : List (String × Node),
    mapEntries f children = mapEntries f children' →
    (∀ c ∈ children, ∀ c' ∈ children', ∀ l ∈ c.2.leaves, ∀ l' ∈ c'.2.leaves, f l = f l' → l = l') →
      children = children'
  | [], [], _, _ => rfl
  | (k, child) :: children, (k', child') :: children', h, hinj => by
    rw [mapEntries, mapEntries, List.cons.injEq, Prod.mk.injEq] at h
    have hchild : child = child' :=
      eq_of_mapLeaves child child' h.1.2 (hinj _ (List.mem_cons_self ..) _ (List.mem_cons_self ..))
    have hchildren : children = children' :=
      eq_of_mapEntries children children' h.2 fun c hc c' hc' =>
        hinj c (List.mem_cons_of_mem _ hc) c' (List.mem_cons_of_mem _ hc')
    rw [h.1.1, hchild, hchildren]

theorem eq_of_mapItems : ∀ children children' : List Node,
    mapItems f children = mapItems f children' →
    (∀ c ∈ children, ∀ c' ∈ children', ∀ l ∈ c.leaves, ∀ l' ∈ c'.leaves, f l = f l' → l = l') →
      children = children'
  | [], [], _, _ => rfl
  | child :: children, child' :: children', h, hinj => by
    rw [mapItems, mapItems, List.cons.injEq] at h
    have hchild : child = child' :=
      eq_of_mapLeaves child child' h.1 (hinj _ (List.mem_cons_self ..) _ (List.mem_cons_self ..))
    have hchildren : children = children' :=
      eq_of_mapItems children children' h.2 fun c hc c' hc' =>
        hinj c (List.mem_cons_of_mem _ hc) c' (List.mem_cons_of_mem _ hc')
    rw [hchild, hchildren]

end

theorem StandsAt.aliasText {n : Node} {place : Keypath} (h : n.StandsAt place) :
    ∀ l ∈ n.leaves, l.AliasText := by
  induction h with
  | leaf l halias =>
    intro l' hl'
    obtain rfl : l' = l := by simpa using hl'
    exact halias
  | list _ ih =>
    intro l hl
    rw [leaves_list] at hl
    obtain ⟨c, hc, hl⟩ := List.mem_flatMap.1 hl
    obtain ⟨i, hi⟩ := List.mem_iff_getElem?.1 hc
    exact ih i c hi l hl
  | dict _ ih =>
    intro l hl
    rw [leaves_dict] at hl
    obtain ⟨c, hc, hl⟩ := List.mem_flatMap.1 hl
    exact ih c hc l hl

end Node

/-! ### What stands at a place -/

theorem Node.StandsAt.reach?_value {n : Node} {place : Keypath} (h : n.StandsAt place)
    (hkeys : n.DistinctKeys) (σ : Assignment) {l : Leaf} (hl : l ∈ n.leaves) :
    ∃ steps, l.place.segments = place.segments ++ steps ∧
      (n.value σ).reach? steps = some (σ l) := by
  induction h with
  | leaf l' =>
    obtain rfl : l = l' := by simpa using hl
    exact ⟨[], by simp, rfl⟩
  | @list place children _ ih =>
    rw [leaves_list] at hl
    obtain ⟨c, hc, hl⟩ := List.mem_flatMap.1 hl
    obtain ⟨i, hi⟩ := List.mem_iff_getElem?.1 hc
    cases hkeys with | list hkeys =>
    obtain ⟨steps, hplace, hreach⟩ := ih i c hi (hkeys c hc) hl
    refine ⟨.index i :: steps, by simpa [Keypath.index, Keypath.push] using hplace, ?_⟩
    rw [Node.value, Value.reach?, Value.step?, getElem?_itemValues, hi]
    exact hreach
  | @dict place children _ ih =>
    rw [leaves_dict] at hl
    obtain ⟨c, hc, hl⟩ := List.mem_flatMap.1 hl
    cases hkeys with | dict hnodup hkeys =>
    obtain ⟨steps, hplace, hreach⟩ := ih c hc (hkeys c hc) hl
    refine ⟨.key c.1 :: steps, by simpa [Keypath.key, Keypath.push] using hplace, ?_⟩
    have hlookup : children.lookup c.1 = some c.2 := (lookup_eq_some_iff_mem hnodup).2 hc
    rw [Node.value, Value.reach?, Value.step?, lookup_entryValues, hlookup]
    exact hreach

end TypedConfig

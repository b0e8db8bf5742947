import Mathlib
import TypedConfig.Proofs.Resolution.Outcome
import TypedConfig.Proofs.Tree.Outline

/-!
# What the value of a leaf depends on

Two configurations that differ in the texts of leaves, in the variables and in the parsers give a
leaf the same value if it is unchanged itself and so is each leaf that it refers to, directly or
through others (`Resolver.reach?_resolve_eq`). Where and in which order the two resolutions come to
the leaf does not matter: each gives it the one value that it resolves to.
-/

namespace TypedConfig

/-- The leaf has the same text in both configurations, the variables that it asks for are the same,
and so is the parser of its type. -/
structure Leaf.Unchanged (s s' : Settings) (root' : Node) (l : Leaf) : Prop where
  raw : ∀ l' ∈ root'.leaves, l'.place = l.place → l'.raw = l.raw
  externals : ∀ name ∈ l.names s.dialect, ∀ parts, s.target name = .external parts →
    s.externals.descend? parts = s'.externals.descend? parts
  parser : ∀ type, l.kind = .typed type → s.parsers.get type = s'.parsers.get type

section
variable {s s' : Settings} {root root' node : Node} {l l' : Leaf} {v : Value}

/-- What the leaf refers to is unchanged, whatever it is reached through. -/
def Leaf.Stable (s s' : Settings) (root root' : Node) (l : Leaf) : Prop :=
  ∀ m, Relation.ReflTransGen (Leaf.RefersTo s root) l m → m.Unchanged s s' root'

theorem Leaf.Stable.refersTo (h : l.Stable s s' root root') (href : l.RefersTo s root l') :
    l'.Stable s s' root root' :=
  fun m hm => h m (.head href hm)

/-- Two trees with one outline, in each of which a leaf is known by its place. -/
structure Node.Twins (root root' : Node) : Prop where
  outline : root.outline = root'.outline
  places : root'.DistinctPlaces
  texts : ∀ l ∈ root.leaves, l.AliasText
  texts' : ∀ l ∈ root'.leaves, l.AliasText

namespace Node.Twins

variable (ht : root.Twins root')
include ht

/-- An unchanged leaf is in both trees. -/
theorem mem_leaves (hl : l ∈ root.leaves) (h : l.Unchanged s s' root') : l ∈ root'.leaves := by
  have hleaves : root.leaves.map Leaf.outline = root'.leaves.map Leaf.outline := by
    rw [← Node.leaves_mapLeaves, ← Node.leaves_mapLeaves]
    exact congrArg leaves ht.outline
  have hmem : l.outline ∈ root'.leaves.map Leaf.outline := hleaves ▸ List.mem_map_of_mem hl
  obtain ⟨l', hl', heq⟩ := List.mem_map.1 hmem
  have hplace : l'.place = l.place := by rw [← l.place_outline, ← heq, l'.place_outline]
  have hsame : l' = l :=
    Leaf.eq_of_outline (ht.texts' l' hl') (ht.texts l hl) heq (h.raw l' hl' hplace)
  exact hsame ▸ hl'

/-- Parts that lead to common leaves only lead to the same node in both trees. -/
theorem locate?_eq {parts : List String} (h : ∀ l, root.LeadsTo parts l → l ∈ root'.leaves) :
    root.locate? parts = root'.locate? parts := by
  have houtline : (root.locate? parts).map (fun found => (found.1.outline, found.2)) =
      (root'.locate? parts).map (fun found => (found.1.outline, found.2)) := by
    have := congrArg (fun n : Node => n.locate? parts) ht.outline
    rwa [Node.outline, Node.outline, locate?_mapLeaves, locate?_mapLeaves] at this
  cases hloc : root.locate? parts with
  | none =>
    rw [hloc, Option.map_none, eq_comm, Option.map_eq_none_iff] at houtline
    rw [houtline]
  | some found =>
    obtain ⟨node, rest⟩ := found
    rw [hloc, Option.map_some, eq_comm, Option.map_eq_some_iff] at houtline
    obtain ⟨⟨node', rest'⟩, hloc', heq⟩ := houtline
    simp only [Prod.mk.injEq] at heq
    obtain ⟨hnode, rfl⟩ := heq
    -- the leaves of both nodes are leaves of the second tree, where the place decides
    have hsame : node = node' := by
      refine eq_of_mapLeaves node node' hnode.symm fun l hl l' hl' heq => ?_
      have hmem : l ∈ root'.leaves := h l ⟨node, _, hloc, hl⟩
      have hmem' : l' ∈ root'.leaves := mem_leaves_of_locate? hloc' l' hl'
      refine ht.places.eq_of_place hmem hmem' ?_
      rw [← l.place_outline, heq, l'.place_outline]
    rw [hloc', hsame]

/-- What the leaf resolves to in the first configuration, it resolves to in the second one. -/
theorem resolvesTo (hdialect : s.dialect = s'.dialect) (hself : s.selfName = s'.selfName)
    (h : l.ResolvesTo s root v) (hstable : l.Stable s s' root root') :
    l.ResolvesTo s' root' v := by
  induction h with
  | @intro l v σ _ heval ih =>
    have hunchanged : l.Unchanged s s' root' := hstable l .refl
    -- each leaf below a name is referred to, so it is unchanged, and the name leads to one node
    have hlocate : ∀ name ∈ l.names s.dialect, ∀ parts, s.target name = .internal parts →
        root.locate? parts = root'.locate? parts := by
      intro name hname parts htarget
      refine ht.locate?_eq fun m hm => ?_
      have href : l.RefersTo s root m := ⟨name, hname, parts, htarget, hm⟩
      exact ht.mem_leaves href.mem_leaves (hstable m (.single href))
    refine .intro σ (fun l' href => ?_) ?_
    · obtain ⟨name, hname, parts, htarget, node, rest, hloc, hmem⟩ := href
      rw [← hdialect] at hname
      rw [← Settings.target_congr hself] at htarget
      rw [← hlocate name hname parts htarget] at hloc
      have href : l.RefersTo s root l' := ⟨name, hname, parts, htarget, node, rest, hloc, hmem⟩
      exact ih l' href (hstable.refersTo href)
    · rw [← heval]
      refine (Leaf.evaluate_eq_of_agree hdialect hself ?_ hunchanged.externals
        hunchanged.parser).symm
      intro name hname parts htarget
      rw [Node.descend?_value, Node.descend?_value, hlocate name hname parts htarget]

end Node.Twins

end

namespace Resolver

variable {r : Resolver} {raw : Json} {root : Node} {v : Value}

theorem exists_resolvesTo (hb : Node.ofConfig r.schema raw = .ok root)
    (h : r.resolve raw = .ok v) :
    ∃ σ : Assignment, (∀ l ∈ root.leaves, l.ResolvesTo r.settings root (σ l)) ∧
      root.value σ = v := by
  obtain ⟨-, root', hb', p, hp⟩ := exists_success h
  cases hb.symm.trans hb'
  refine ⟨p.assignment fun _ => .null, fun l hl => ?_, hp.value _ (p.agrees_assignment _)⟩
  exact hp.settled.resolvesTo_assignment hl (hp.done l hl) _

theorem reach?_resolve_eq {schema : Schema} {s s' : Settings} {raw raw' : Json}
    {root root' : Node} {v v' : Value} {l : Leaf}
    (hb : Node.ofConfig schema raw = .ok root) (hb' : Node.ofConfig schema raw' = .ok root')
    (houtline : root.outline = root'.outline) (hdialect : s.dialect = s'.dialect)
    (hself : s.selfName = s'.selfName) (h : (Resolver.mk schema s).resolve raw = .ok v)
    (h' : (Resolver.mk schema s').resolve raw' = .ok v') (hl : l ∈ root.leaves)
    (hsame : ∀ m, Relation.ReflTransGen (Leaf.RefersTo s root) l m → m.Unchanged s s' root') :
    ∃ w, v.reach? l.place.segments = some w ∧ v'.reach? l.place.segments = some w := by
  have hstands := Node.standsAt_ofConfig hb
  have hstands' := Node.standsAt_ofConfig hb'
  have htwins : root.Twins root' :=
    ⟨houtline, Node.distinctPlaces_ofConfig hb', hstands.aliasText, hstands'.aliasText⟩
  -- the two runs may differ in order, so they are compared through what the leaf resolves to
  obtain ⟨σ, hσ, rfl⟩ := exists_resolvesTo (r := ⟨schema, s⟩) hb h
  obtain ⟨τ, hτ, rfl⟩ := exists_resolvesTo (r := ⟨schema, s'⟩) hb' h'
  have hl' : l ∈ root'.leaves := htwins.mem_leaves hl (hsame l .refl)
  have hvalue : σ l = τ l :=
    (htwins.resolvesTo hdialect hself (hσ l hl) hsame).unique (hτ l hl')
  obtain ⟨steps, hplace, hreach⟩ := hstands.reach?_value (Node.distinctKeys_ofConfig hb) σ hl
  obtain ⟨steps', hplace', hreach'⟩ := hstands'.reach?_value (Node.distinctKeys_ofConfig hb') τ hl'
  refine ⟨σ l, ?_, ?_⟩
  · rw [hplace]
    exact hreach
  · rw [hplace', hvalue]
    exact hreach'

/-- Another flag, with another parser for flags and a variable more, leaves the banner alone. -/
theorem reach?_of_banner :
    let schema : Schema := .dict [("banner", .scalar .string false), ("flag", .scalar .boolean false),
      ("name", .scalar .string false)] [] none false
    let raw (flag : String) : Json := .object [
      ("banner", .string "$\x7bthis.name\x7d on $\x7bhost\x7d"), ("flag", .string flag),
      ("name", .string "app")]
    let s : Settings := { Settings.initial with externals := .object [("host", .string "h")] }
    let s' : Settings := { Settings.initial with
      externals := .object [("port", .null), ("host", .string "h")]
      parsers := Parsers.none.insert (.scalar .boolean) fun _ => .ok (.bool false) }
    ∃ v v' w, (Resolver.mk schema s).resolve (raw "true") = .ok v ∧
      (Resolver.mk schema s').resolve (raw "$\x7bport\x7d") = .ok v' ∧
      v.reach? [.key "banner"] = some w ∧ v'.reach? [.key "banner"] = some w := by
  intro schema raw s s'
  have h : (Resolver.mk schema s).resolve (raw "true") =
      .ok (.dict [("banner", .string "app on h"), ("flag", .bool true), ("name", .string "app")]) := by
    cbv
  have h' : (Resolver.mk schema s').resolve (raw "$\x7bport\x7d") =
      .ok (.dict [("banner", .string "app on h"), ("flag", .bool false), ("name", .string "app")]) := by
    cbv
  let banner : Leaf := ⟨Keypath.root.key "banner", .typed (.scalar .string),
    .string "$\x7bthis.name\x7d on $\x7bhost\x7d", none⟩
  let name : Leaf := ⟨Keypath.root.key "name", .typed (.scalar .string), .string "app", none⟩
  let root (flag : String) : Node := .dict .root [("banner", .leaf banner),
    ("flag", .leaf ⟨Keypath.root.key "flag", .typed (.scalar .boolean), .string flag, none⟩),
    ("name", .leaf name)]
  have hnames : banner.names .interpolation = ["this.name", "host"] := by cbv
  have hnone : name.names .interpolation = [] := by cbv
  have hname : s.target "this.name" = .internal ["name"] := by cbv
  have hhost : s.target "host" = .external ["host"] := by cbv
  have hreached : ∀ m, Relation.ReflTransGen (Leaf.RefersTo s (root "true")) banner m →
      m = banner ∨ m = name := by
    intro m hm
    induction hm with
    | refl => exact .inl rfl
    | tail _ href ih =>
      obtain ⟨asked, hasked, parts, htarget, node, rest, hloc, hmem⟩ := href
      rcases ih with rfl | rfl
      · have hasked : asked ∈ ["this.name", "host"] := hnames ▸ hasked
        rcases List.mem_pair.1 hasked with rfl | rfl
        · cases hname.symm.trans htarget
          have hnode : (root "true").locate? ["name"] = some (.leaf name, []) := by cbv
          cases hnode.symm.trans hloc
          exact .inr (by simpa using hmem)
        · cases hhost.symm.trans htarget
      · have hasked : asked ∈ ([] : List String) := hnone ▸ hasked
        cases hasked
  have hb (flag : String) : Node.ofConfig schema (raw flag) = .ok (root flag) := rfl
  have hplaces : (root "$\x7bport\x7d").DistinctPlaces := Node.distinctPlaces_ofConfig (hb _)
  have hleaves (flag : String) : banner ∈ (root flag).leaves ∧ name ∈ (root flag).leaves := by
    simp [root]
  have hsame : ∀ m, m = banner ∨ m = name → m.Unchanged s s' (root "$\x7bport\x7d") := by
    rintro m (rfl | rfl)
    · refine ⟨fun l' hl' hplace => ?_, fun asked hasked parts htarget => ?_, fun type hk => ?_⟩
      · rw [hplaces.eq_of_place hl' (hleaves _).1 hplace]
      · have hasked : asked ∈ ["this.name", "host"] := hnames ▸ hasked
        rcases List.mem_pair.1 hasked with rfl | rfl
        · cases hname.symm.trans htarget
        · cases hhost.symm.trans htarget
          cbv
      · cases hk
        rfl
    · refine ⟨fun l' hl' hplace => ?_, fun asked hasked parts htarget => ?_, fun type hk => ?_⟩
      · rw [hplaces.eq_of_place hl' (hleaves _).2 hplace]
      · have hasked : asked ∈ ([] : List String) := hnone ▸ hasked
        cases hasked
      · cases hk
        rfl
  have hdialect : s.dialect = s'.dialect := rfl
  have hself : s.selfName = s'.selfName := rfl
  obtain ⟨w, hw, hw'⟩ := reach?_resolve_eq (hb "true") (hb "$\x7bport\x7d") rfl hdialect
    hself h h' (hleaves "true").1 fun m hm => hsame m (hreached m hm)
  exact ⟨_, _, w, h, h', hw, hw'⟩

end Resolver
end TypedConfig

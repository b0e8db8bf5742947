import TypedConfig.Proofs.Resolution.DottedName
import TypedConfig.Proofs.Tree.Origins
import TypedConfig.Resolver

/-!
# Addresses of nodes

Following the texts of the segments of a place leads to the node there and to nothing else
(`Node.StandsAt.locate?_place`), so that a node is reached by the displayed form of its address,
if its keys can be parts of names (`Node.addressed_ofConfig`). A position is read from a text as a
64-bit word, so that this takes arrays with no more items than such words (`Json.IsIndexable`).
-/

namespace TypedConfig

theorem Text.index?_numeral {n : Nat} (h : n < 18446744073709551616) :
    Text.index? (Text.numeral n) = some n := by
  have hinteger : (Text.integer? (Text.numeral n).toList).map Int.toNat = some n := by
    rw [Text.integer?_numeral]
    rfl
  unfold Text.index?
  split
  · next rest heq =>
    have hminus : '-' ∈ (Text.numeral n).toList := heq ▸ List.mem_cons_self ..
    rw [Text.numeral, if_neg (by omega), String.toList_ofList] at hminus
    cases Text.isDigit_of_mem_digits hminus
  · rw [hinteger, Option.filter_some, if_pos (by simpa using h)]

/-- No array in the document has more items than there are 64-bit words. -/
def Json.IsIndexable (j : Json) : Prop :=
  ∀ steps items, j.reach? steps = some (.array items) → items.length ≤ 18446744073709551616

namespace Json.IsIndexable

theorem of_steps {j : Json}
    (hself : ∀ items, j = .array items → items.length ≤ 18446744073709551616)
    (hparts : ∀ s part, j.step? s = some part → part.IsIndexable) : j.IsIndexable := by
  intro steps items h
  cases steps with
  | nil => exact hself items (Option.some.inj h)
  | cons s steps =>
    obtain ⟨part, hpart, h⟩ := Option.bind_eq_some_iff.1 h
    exact hparts s part hpart steps items h

theorem array {items : List Json} (hlength : items.length ≤ 18446744073709551616)
    (hitems : ∀ j ∈ items, j.IsIndexable) : (Json.array items).IsIndexable := by
  refine of_steps (fun items' heq => ?_) fun s part hpart => ?_
  · cases heq
    exact hlength
  · cases s with
    | key k => cases hpart
    | index i => exact hitems part (List.mem_of_getElem? hpart)

theorem object {entries : List (String × Json)} (hentries : ∀ e ∈ entries, e.2.IsIndexable) :
    (Json.object entries).IsIndexable := by
  refine of_steps nofun fun s part hpart => ?_
  cases s with
  | key k => exact hentries _ (mem_of_lookup hpart)
  | index i => cases hpart

theorem string (s : String) : (Json.string s).IsIndexable :=
  of_steps nofun fun step part hpart => by cases step <;> cases hpart

end Json.IsIndexable

namespace Node

/-- No list from the node on down has more children than there are 64-bit words. -/
def IsIndexable (n : Node) : Prop :=
  ∀ place children, list place children ∈ n.nodes → children.length ≤ 18446744073709551616

theorem length_ofAnyItems (place : Keypath) (position : Nat) (items : List Json) :
    (ofAnyItems place position items).length = items.length := by
  induction items generalizing position with
  | nil => rfl
  | cons j items ih => rw [ofAnyItems, List.length_cons, List.length_cons, ih]

/-- A list is built from an array of as many items. -/
theorem exists_array_of_build {schema : Schema} {raw : Json} {place p : Keypath}
    {children : List Node} (h : build schema place raw = .ok (list p children)) :
    ∃ items, raw = .array items ∧ children.length = items.length := by
  obtain ⟨items, rfl, ⟨-, rfl⟩ | ⟨element, nullable, -, hc⟩⟩ := array_of_build h
  · exact ⟨items, rfl, length_ofAnyItems ..⟩
  · exact ⟨items, rfl, length_ofItems hc⟩

theorem isIndexable_ofConfig {schema : Schema} {raw : Json} {root : Node} (hs : schema.DistinctKeys)
    (hraw : raw.DistinctKeys) (hindex : raw.IsIndexable) (h : ofConfig schema raw = .ok root) :
    root.IsIndexable := by
  intro place children hmem
  cases comesFrom_of_mem_nodes hs hraw h hmem with
  | part _ hj hn =>
    obtain ⟨items, rfl, hlength⟩ := exists_array_of_build hn
    rw [hlength]
    exact hindex _ items hj

/-- Each node from a node on down is located by the steps to it. -/
theorem StandsAt.exists_locate? {n : Node} {place : Keypath} (h : n.StandsAt place)
    (hkeys : n.DistinctKeys) (hindex : n.IsIndexable) :
    ∀ m ∈ n.nodes, ∃ steps, m.place = place.follow steps ∧
      n.locate? (steps.map Segment.text) = some (m, []) := by
  induction h with
  | leaf l =>
    intro m hm
    rw [mem_nodes_leaf] at hm
    subst hm
    exact ⟨[], (Keypath.follow_nil _).symm, rfl⟩
  | @list place children hc ih =>
    intro m hm
    cases hkeys with | list hkeys =>
    rcases mem_nodes_list.1 hm with ⟨c, hmem, hm⟩ | rfl
    · obtain ⟨i, hi⟩ := List.mem_iff_getElem?.1 hmem
      have hlength := hindex place children (mem_nodes_list.2 (.inr rfl))
      have hbound : i < 18446744073709551616 := by
        obtain ⟨hlt, -⟩ := List.getElem?_eq_some_iff.1 hi
        omega
      obtain ⟨steps, hplace, hlocate⟩ := ih i c hi (hkeys c hmem)
        (fun p cs hcs => hindex p cs (mem_nodes_list.2 (.inl ⟨c, hmem, hcs⟩))) m hm
      refine ⟨.index i :: steps, hplace.trans (Keypath.follow_cons ..).symm, ?_⟩
      rw [List.map_cons, Segment.text, Node.locate?, Text.index?_numeral hbound, Option.bind_some,
        hi]
      exact hlocate
    · exact ⟨[], (Keypath.follow_nil _).symm, rfl⟩
  | @dict place children hc ih =>
    intro m hm
    cases hkeys with | dict hnodup hkeys =>
    rcases mem_nodes_dict.1 hm with ⟨c, hmem, hm⟩ | rfl
    · obtain ⟨steps, hplace, hlocate⟩ := ih c hmem (hkeys c hmem)
        (fun p cs hcs => hindex p cs (mem_nodes_dict.2 (.inl ⟨c, hmem, hcs⟩))) m hm
      refine ⟨.key c.1 :: steps, hplace.trans (Keypath.follow_cons ..).symm, ?_⟩
      have hlookup : children.lookup c.1 = some c.2 := (lookup_eq_some_iff_mem hnodup).2 hmem
      rw [List.map_cons, Segment.text, Node.locate?, hlookup]
      exact hlocate
    · exact ⟨[], (Keypath.follow_nil _).symm, rfl⟩

theorem StandsAt.locate?_place {root n : Node} (h : root.StandsAt .root)
    (hkeys : root.DistinctKeys) (hindex : root.IsIndexable) (hn : n ∈ root.nodes) :
    root.locate? n.place.parts = some (n, []) := by
  obtain ⟨steps, hplace, hlocate⟩ := h.exists_locate? hkeys hindex n hn
  rw [hplace]
  exact hlocate

end Node

theorem Resolution.followInternal_of_locate? {root n : Node} {parts : List String}
    (h : root.locate? parts = some (n, [])) (resolveNode : Node → Resolution Value) (unknown : Error) :
    followInternal root resolveNode unknown parts = resolveNode n := by
  rw [followInternal, h]
  exact bind_pure _

namespace Node

/-- In a built tree no two nodes have the same address, and the texts of its segments lead to the
node. If the keys on the way can be parts of names, the displayed address is taken apart into
these texts, and a reference to it, which starts with the name of the configuration for itself,
resolves the node. -/
theorem addressed_ofConfig {schema : Schema} {raw : Json} {root : Node} (hs : schema.Accepted)
    (hraw : raw.DistinctKeys) (hindex : raw.IsIndexable) (h : ofConfig schema raw = .ok root) :
    (root.nodes.map place).Nodup ∧
      ∀ n ∈ root.nodes, root.locate? n.place.parts = some (n, []) ∧
        (n.place.isRoot = false → (∀ k, .key k ∈ n.place.segments → Keypath.IsPart k) →
          Keypath.dottedParts n.place.text = n.place.parts ∧
          ∀ settings : Settings, Keypath.IsPart settings.selfName →
            settings.target (settings.selfName ++ "." ++ n.place.text) = .internal n.place.parts ∧
            (∀ resolveNode unknown,
              Resolution.followInternal root resolveNode unknown n.place.parts = resolveNode n) ∧
            ('\x7d' ∉ (settings.selfName ++ "." ++ n.place.text).toList →
              (Template.scan .interpolation
                ("$\x7b" ++ (settings.selfName ++ "." ++ n.place.text) ++ "\x7d")).names =
                  [settings.selfName ++ "." ++ n.place.text])) := by
  have hstands : root.StandsAt .root := standsAt_ofConfig h
  have hkeys : root.DistinctKeys := distinctKeys_ofConfig h
  have hroot : root.IsIndexable := isIndexable_ofConfig hs.distinctKeys hraw hindex h
  refine ⟨(hstands.nodesPlacedAt hkeys).nodup, fun n hn => ?_⟩
  have hlocate := hstands.locate?_place hkeys hroot hn
  refine ⟨hlocate, fun hne hkeys => ⟨Keypath.dottedParts_text hne hkeys, fun settings hself => ?_⟩⟩
  exact ⟨Settings.target_text hself hne hkeys,
    Resolution.followInternal_of_locate? hlocate, Settings.names_text hself hne hkeys⟩

/-- A key and a position that are written alike, an empty key, a reference to a whole list, and a
default. -/
theorem addressed_of_ports :
    let ports : Schema := .list (.scalar .string false) false
    let schema : Schema := .dict [("ports", ports), ("", ports)]
      [("zone", .scalar .string false, some (.string "local"))] (some .any) false
    let raw : Json := .object [("ports", .array [.string "80", .string "$\x7bthis.note.1\x7d"]),
      ("", .string "$\x7bthis.ports\x7d"), ("note", .object [("1", .string "8080")])]
    let first : Node := openLeaf ((Keypath.root.key "ports").index 0) (.scalar .string) (.string "80")
    let note : Node := openLeaf ((Keypath.root.key "note").key "1") .any (.string "8080")
    let root : Node := .dict .root [
      ("ports", .list (Keypath.root.key "ports") [first,
        openLeaf ((Keypath.root.key "ports").index 1) (.scalar .string)
          (.string "$\x7bthis.note.1\x7d")]),
      ("", .leaf ⟨Keypath.root.key "", .alias .list "this.ports", .string "$\x7bthis.ports\x7d", none⟩),
      ("zone", presetLeaf (Keypath.root.key "zone") (.scalar .string) .null (.string "local")),
      ("note", .dict (Keypath.root.key "note") [("1", note)])]
    ofConfig schema raw = .ok root ∧ (root.nodes.map place).Nodup ∧
      root.locate? ["ports", "0"] = some (first, []) ∧
      Settings.initial.target "this.note.1" = .internal ["note", "1"] ∧
      ∀ resolveNode unknown,
        Resolution.followInternal root resolveNode unknown ["note", "1"] = resolveNode note := by
  intro ports schema raw first note root
  have hs : schema.Accepted :=
    ⟨.object [("type", .string "dict"),
      ("required_keys", .object [
        ("ports", .object [("type", .string "list"),
          ("element_schema", .object [("type", .string "string")])]),
        ("", .object [("type", .string "list"),
          ("element_schema", .object [("type", .string "string")])])]),
      ("optional_keys", .object [("zone", .object [("type", .string "string"),
        ("default", .string "local")])]),
      ("extra_keys_schema", .object [("type", .string "any")])],
      by simp, by cbv⟩
  have hraw : raw.DistinctKeys := by simp [raw]
  have hindex : raw.IsIndexable := by
    refine .object fun e he => ?_
    simp only [List.mem_cons, List.not_mem_nil, or_false] at he
    rcases he with rfl | rfl | rfl
    · refine .array (by simp) fun j hj => ?_
      rcases List.mem_pair.1 hj with rfl | rfl <;> exact .string _
    · exact .string _
    · refine .object fun e he => ?_
      rw [List.mem_singleton.1 he]
      exact .string _
  have hbuild : ofConfig schema raw = .ok root := by cbv
  obtain ⟨hnodup, haddress⟩ := addressed_ofConfig hs hraw hindex hbuild
  have hfirst : first ∈ root.nodes :=
    mem_nodes_dict.2 (.inl ⟨_, List.mem_cons_self ..,
      mem_nodes_list.2 (.inl ⟨first, List.mem_cons_self .., mem_nodes_leaf.2 rfl⟩)⟩)
  have hnote : note ∈ root.nodes :=
    mem_nodes_dict.2 (.inl ⟨("note", .dict (Keypath.root.key "note") [("1", note)]), by simp,
      mem_nodes_dict.2 (.inl ⟨("1", note), by simp, mem_nodes_leaf.2 rfl⟩)⟩)
  have hkeys (k : String) (hk : .key k ∈ note.place.segments) : Keypath.IsPart k := by
    have hk : Segment.key k ∈ [Segment.key "note", Segment.key "1"] := hk
    rcases List.mem_pair.1 hk with heq | heq
    · cases heq
      exact ⟨by decide, by decide⟩
    · cases heq
      exact ⟨by decide, by decide⟩
  obtain ⟨-, hreference⟩ := (haddress note hnote).2 rfl hkeys
  obtain ⟨htarget, hfollow, -⟩ := hreference .initial ⟨by decide, by decide⟩
  exact ⟨hbuild, hnodup, (haddress first hfirst).1, htarget, hfollow⟩
end Node
end TypedConfig

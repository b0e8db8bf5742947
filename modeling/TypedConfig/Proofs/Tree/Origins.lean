import TypedConfig.Proofs.Schema.Descent
import TypedConfig.Proofs.Tree.ClosedSchema
import TypedConfig.Proofs.Tree.Fits
import TypedConfig.Proofs.Tree.Places

/-!
# Where nodes come from

Each node of a built tree is built from the part of the document that the steps to it lead to, under
a schema that the same steps lead to; or nothing is there, and it is made of the default of an
optional key (`Node.comesFrom_of_build`). If no key is declared twice, no child is replaced by
another one (`Node.ofConfig_eq_build`), and the schema at the address of a node suits it
(`Node.suits_of_mem_nodes`).
-/

namespace TypedConfig

namespace Node

/-! ### Origins -/

/-- What the node at the end of steps from a place is made of: the part of the document there, under
a schema there; or, where the document has nothing, a default that is declared there. -/
inductive ComesFrom (schema : Schema) (raw : Json) (place : Keypath) (steps : List Segment) :
    Node → Prop
  | part {sub : Schema} {part : Json} {n : Node} (hs : schema.DeclaredAt steps sub)
      (hj : raw.reach? steps = some part) (hn : build sub (place.follow steps) part = .ok n) :
      ComesFrom schema raw place steps n
  | default {sub : Schema} {d : Value} (hs : schema.DeclaredAt steps sub)
      (hj : raw.reach? steps = none) (hd : schema.DefaultAt steps sub d) :
      ComesFrom schema raw place steps (presetLeaf (place.follow steps) sub.leafType .null d)

namespace ComesFrom

variable {schema child : Schema} {raw part : Json} {place : Keypath} {s : Segment}
  {steps : List Segment} {n : Node}

theorem self (h : build schema place raw = .ok n) : ComesFrom schema raw place [] n := by
  refine .part (.self schema) rfl ?_
  rwa [Keypath.follow_nil]

/-- What a node in a part comes from, it comes from in the whole. -/
theorem below (hs : schema.IsChild s child) (hj : raw.step? s = some part)
    (h : ComesFrom child part (place.push s) steps n) :
    ComesFrom schema raw place (s :: steps) n := by
  have hreach : raw.reach? (s :: steps) = part.reach? steps := by
    rw [Json.reach?, hj, Option.bind_some]
  cases h with
  | part hsub hpart hn =>
    rw [← Keypath.follow_cons] at hn
    exact .part (.step hs hsub) (hreach.trans hpart) hn
  | default hsub hpart hd =>
    rw [← Keypath.follow_cons]
    exact .default (.step hs hsub) (hreach.trans hpart) (hd.below hs)

theorem absent {required : List (String × Schema)} {optional : List (String × Schema × Option Value)}
    {extra : Option Schema} {nullable : Bool} {entries : List (String × Json)} {k : String}
    {sub : Schema} {d : Value} (hd : (k, sub, some d) ∈ optional) (hj : entries.lookup k = none) :
    ComesFrom (.dict required optional extra nullable) (.object entries) place [.key k]
      (presetLeaf (place.key k) sub.leafType .null d) := by
  have hstep : (Json.object entries).step? (.key k) = none := hj
  refine .default (.step (.optional hd) (.self sub)) ?_ (.mk (.self _) hd)
  rw [Json.reach?, hstep, Option.bind_none]

/-- The node stands where the steps lead to. -/
theorem place_eq (h : ComesFrom schema raw place steps n) : n.place = place.follow steps := by
  cases h with
  | part _ _ hn => exact (standsAt_build hn).place_eq
  | default => rfl

end ComesFrom

/-- A list is built from an array. -/
theorem array_of_build {schema : Schema} {raw : Json} {place p : Keypath} {children : List Node}
    (h : build schema place raw = .ok (list p children)) :
    ∃ items, raw = .array items ∧
      (schema = .any ∧ children = ofAnyItems place 0 items ∨
        ∃ element nullable, schema = .list element nullable ∧
          ofItems (fun p j => build element p j) place 0 items = .ok children) := by
  cases schema with
  | any =>
    cases raw with
    | array items =>
      cases h
      exact ⟨items, rfl, .inl ⟨rfl, rfl⟩⟩
    | _ => cases h
  | scalar =>
    obtain ⟨l, hl, -⟩ := eq_leaf_of_ofScalar h
    cases hl
  | list element nullable =>
    rcases build_list_eq_ok_iff.1 h with hn | ⟨items, children, rfl, heq, hc⟩
    · obtain ⟨l, hl⟩ := eq_leaf_of_standIn hn
      cases hl
    · cases heq
      exact ⟨items, rfl, .inr ⟨element, nullable, rfl, hc⟩⟩
  | dict =>
    rcases build_dict_eq_ok_iff.1 h with hn | ⟨entries, cs₁, cs₂, cs₃, -, heq, -⟩
    · obtain ⟨l, hl⟩ := eq_leaf_of_standIn hn
      cases hl
    · cases heq

/-- A dict is built from an object. -/
theorem object_of_build {schema : Schema} {raw : Json} {place p : Keypath}
    {children : List (String × Node)} (h : build schema place raw = .ok (dict p children)) :
    ∃ entries, raw = .object entries ∧
      (schema = .any ∧ children = ofAnyEntries place entries ∨
        ∃ required optional extra nullable, schema = .dict required optional extra nullable ∧
          ∃ cs₁ cs₂ cs₃, children = cs₁ ++ cs₂ ++ cs₃ ∧
            buildRequired place entries required = .ok cs₁ ∧
            buildOptional place entries optional = .ok cs₂ ∧
            ofExtra (buildExtra extra) place (entries.filter fun e =>
              !(required.map Prod.fst ++ optional.map Prod.fst).contains e.1) = .ok cs₃) := by
  cases schema with
  | any =>
    cases raw with
    | object entries =>
      cases h
      exact ⟨entries, rfl, .inl ⟨rfl, rfl⟩⟩
    | _ => cases h
  | scalar =>
    obtain ⟨l, hl, -⟩ := eq_leaf_of_ofScalar h
    cases hl
  | list =>
    rcases build_list_eq_ok_iff.1 h with hn | ⟨items, children, -, heq, -⟩
    · obtain ⟨l, hl⟩ := eq_leaf_of_standIn hn
      cases hl
    · cases heq
  | dict required optional extra nullable =>
    rcases build_dict_eq_ok_iff.1 h with hn | ⟨entries, cs₁, cs₂, cs₃, rfl, heq, hbuilt⟩
    · obtain ⟨l, hl⟩ := eq_leaf_of_standIn hn
      cases hl
    · cases heq
      exact ⟨entries, rfl, .inr ⟨_, _, _, _, rfl, cs₁, cs₂, cs₃, rfl, hbuilt⟩⟩

section
variable {schema : Schema} {raw : Json} {place p : Keypath}

theorem comesFrom_of_mem_children (hraw : raw.DistinctKeys) {children : List (String × Node)}
    (h : build schema place raw = .ok (dict p children)) {c : String × Node} (hc : c ∈ children) :
    ComesFrom schema raw place [.key c.1] c.2 := by
  obtain ⟨entries, rfl, ⟨rfl, rfl⟩ |
    ⟨required, optional, extra, nullable, rfl, cs₁, cs₂, cs₃, rfl, h₁, h₂, h₃⟩⟩ := object_of_build h
  · rw [ofAnyEntries_eq_map] at hc
    obtain ⟨e, he, rfl⟩ := List.mem_map.1 hc
    exact (ComesFrom.self rfl).below (.any _) (hraw.step?_key he)
  · rw [List.mem_append, List.mem_append] at hc
    rcases hc with (hc | hc) | hc
    · obtain ⟨e, he, ⟨hj, hn⟩⟩ := exists_of_mem_children (buildRequired_eq_ok_iff.1 h₁) hc
      exact (ComesFrom.self hn).below (.required he) hj
    · obtain ⟨e, he, ⟨hj, hn⟩ | hj⟩ := exists_of_mem_children (buildOptional_eq_ok_iff.1 h₂) hc
      · exact (ComesFrom.self hn).below (.optional he) hj
      · exact .absent he hj
    · obtain ⟨e, he, ⟨rfl, hn⟩⟩ := exists_of_mem_children (ofExtra_eq_ok_iff.1 h₃) hc
      obtain ⟨hmem, hk⟩ := List.mem_filter.1 he
      exact (ComesFrom.self hn).below (.extra (by simpa using hk)) (hraw.step?_key hmem)

theorem comesFrom_of_getElem? {children : List Node}
    (h : build schema place raw = .ok (list p children)) {i : Nat} {n : Node}
    (hn : children[i]? = some n) : ComesFrom schema raw place [.index i] n := by
  obtain ⟨items, rfl, ⟨rfl, rfl⟩ | ⟨element, nullable, rfl, hc⟩⟩ := array_of_build h
  · rw [getElem?_ofAnyItems, Nat.zero_add] at hn
    obtain ⟨j, hj, rfl⟩ := Option.map_eq_some_iff.1 hn
    have hstep : (Json.array items).step? (.index i) = some j := hj
    exact (ComesFrom.self rfl).below (.any _) hstep
  · obtain ⟨j, hj, hn⟩ := exists_item_of_ofItems hc hn
    have hstep : (Json.array items).step? (.index i) = some j := hj
    rw [Nat.zero_add] at hn
    exact (ComesFrom.self hn).below (.element ..) hstep

/-- If each key is declared once, each has one child. -/
theorem nodup_keys_of_build (hs : schema.DistinctKeys) (hraw : raw.DistinctKeys)
    {children : List (String × Node)} (h : build schema place raw = .ok (dict p children)) :
    (children.map Prod.fst).Nodup := by
  obtain ⟨entries, rfl, ⟨rfl, rfl⟩ |
    ⟨required, optional, extra, nullable, rfl, cs₁, cs₂, cs₃, rfl, h₁, h₂, h₃⟩⟩ := object_of_build h
  · cases hraw with
    | object hkeys => simpa [ofAnyEntries_eq_map, Function.comp_def] using hkeys
  · cases hs with
    | dict nodup =>
      cases hraw with
      | object hkeys =>
        rw [List.map_append, List.map_append,
          map_fst_of_children (buildRequired_eq_ok_iff.1 h₁) fun _ _ ⟨_, _⟩ => rfl,
          map_fst_of_children (buildOptional_eq_ok_iff.1 h₂) fun _ _ hc => by cases hc <;> rfl,
          map_fst_of_children (ofExtra_eq_ok_iff.1 h₃) fun _ _ ⟨_, _⟩ => rfl]
        exact nodup_declared_append nodup hkeys

end

/-- Whatever the node is built from at the place, all nodes from it on down come from that. -/
def TracesBack (n : Node) (place : Keypath) : Prop :=
  ∀ schema raw, raw.DistinctKeys → build schema place raw = .ok n →
    ∀ m ∈ n.nodes, ∃ steps, ComesFrom schema raw place steps m

theorem TracesBack.below {n : Node} {schema : Schema} {raw : Json} {place : Keypath} {s : Segment}
    (h : n.TracesBack (place.push s)) (hraw : raw.DistinctKeys)
    (hn : ComesFrom schema raw place [s] n) :
    ∀ m ∈ n.nodes, ∃ steps, ComesFrom schema raw place steps m := by
  intro m hm
  cases hn with
  | @part sub part _ hsub hpart hn =>
    obtain _ | ⟨hchild, ⟨⟩⟩ := hsub
    obtain ⟨j, hj, hpart⟩ := Option.bind_eq_some_iff.1 hpart
    cases hpart
    obtain ⟨steps, hsteps⟩ := h sub part (hraw.of_step? hj) hn m hm
    exact ⟨s :: steps, hsteps.below hchild hj⟩
  | default hsub hpart hd =>
    rw [presetLeaf, mem_nodes_leaf] at hm
    subst hm
    exact ⟨[s], .default hsub hpart hd⟩

theorem StandsAt.tracesBack {n : Node} {place : Keypath} (h : n.StandsAt place) :
    n.TracesBack place := by
  induction h with
  | leaf l =>
    intro schema raw _ hn m hm
    rw [mem_nodes_leaf] at hm
    exact ⟨[], hm ▸ .self hn⟩
  | list _ ih =>
    intro schema raw hraw hn m hm
    rcases mem_nodes_list.1 hm with ⟨c, hc, hm⟩ | rfl
    · obtain ⟨i, hi⟩ := List.mem_iff_getElem?.1 hc
      exact (ih i c hi).below hraw (comesFrom_of_getElem? hn hi) m hm
    · exact ⟨[], .self hn⟩
  | dict _ ih =>
    intro schema raw hraw hn m hm
    rcases mem_nodes_dict.1 hm with ⟨c, hc, hm⟩ | rfl
    · exact (ih c hc).below hraw (comesFrom_of_mem_children hraw hn hc) m hm
    · exact ⟨[], .self hn⟩

/-- The steps to a node that is built are its address. -/
theorem comesFrom_of_build {schema : Schema} {raw : Json} {n m : Node} (hraw : raw.DistinctKeys)
    (h : build schema .root raw = .ok n) (hm : m ∈ n.nodes) :
    ComesFrom schema raw .root m.place.segments m := by
  obtain ⟨steps, horigin⟩ := (standsAt_build h).tracesBack schema raw hraw h m hm
  have hsteps : m.place.segments = steps := by
    rw [horigin.place_eq, Keypath.follow, Keypath.root, List.nil_append]
  rwa [hsteps]

/-! ### Keys that are declared once -/

section
variable {schema : Schema} {raw : Json} {n root : Node}

theorem distinctKeys_of_nodes (h : ∀ p children, dict p children ∈ n.nodes →
    (children.map Prod.fst).Nodup) {place : Keypath} (hn : n.StandsAt place) : n.DistinctKeys := by
  induction hn with
  | leaf l => exact .leaf l
  | list _ ih =>
    refine .list fun c hc => ?_
    obtain ⟨i, hi⟩ := List.mem_iff_getElem?.1 hc
    exact ih i c hi fun p children hm => h p children (mem_nodes_list.2 (.inl ⟨c, hc, hm⟩))
  | dict _ ih =>
    refine .dict (h _ _ (mem_nodes_dict.2 (.inr rfl))) fun c hc => ?_
    exact ih c hc fun p children hm => h p children (mem_nodes_dict.2 (.inl ⟨c, hc, hm⟩))

theorem distinctKeys_build (hs : schema.DistinctKeys) (hraw : raw.DistinctKeys)
    (h : build schema .root raw = .ok n) : n.DistinctKeys := by
  refine distinctKeys_of_nodes (fun p children hm => ?_) (standsAt_build h)
  have horigin := comesFrom_of_build hraw h hm
  generalize hm' : dict p children = m at horigin
  generalize m.place.segments = steps at horigin
  cases horigin with
  | part hsub hpart hn =>
    subst hm'
    exact nodup_keys_of_build (Schema.inherited_distinctKeys.of_declaredAt hs hsub)
      (hraw.of_reach? hpart) hn
  | default => cases hm'

/-- If each key is declared once, the tree of a configuration is what is built from it. -/
theorem ofConfig_eq_build (hs : schema.DistinctKeys) (hraw : raw.DistinctKeys) :
    ofConfig schema raw = build schema .root raw := by
  unfold ofConfig
  cases hb : build schema .root raw with
  | error e => rfl
  | ok n =>
    change Except.ok n.keyed = _
    rw [(distinctKeys_build hs hraw hb).keyed_eq]

theorem comesFrom_of_mem_nodes (hs : schema.DistinctKeys) (hraw : raw.DistinctKeys)
    (h : ofConfig schema raw = .ok root) (hn : n ∈ root.nodes) :
    ComesFrom schema raw .root n.place.segments n :=
  comesFrom_of_build hraw (ofConfig_eq_build hs hraw ▸ h) hn

end

end Node

/-! ### Schemas of nodes -/

/-- The schema suits the node. A dict or a list has a schema of its kind or a free-form one, a
reference has one for the container that it stands for. Any other leaf has the leaf type of its
schema; if that is a container, the leaf has null, which is admitted, or one of the defaults. -/
def Schema.Suits (schema : Schema) (defaults : Value → Prop) : Node → Prop
  | .dict _ _ => schema.container? = some .dict ∨ schema = .any
  | .list _ _ => schema.container? = some .list ∨ schema = .any
  | .leaf l =>
    match l.kind with
    | .alias container _ => schema.container? = some container
    | .typed type =>
      type = schema.leafType ∧ (schema.container? ≠ none →
        ∃ d, l.preset = some d ∧ (d = .null ∧ schema.isNullable = true ∨ defaults d))

namespace Node

variable {schema : Schema} {defaults : Value → Prop} {place : Keypath} {raw : Json} {n : Node}

theorem suits_standIn {container : Container} (hs : schema.container? = some container)
    (h : standIn? place container schema.isNullable raw = some n) :
    schema.Suits defaults n := by
  rcases cases_of_standIn h with ⟨-, hnull, rfl⟩ | ⟨s, name, -, -, rfl⟩
  · refine ⟨?_, fun _ => ⟨.null, rfl, .inl ⟨rfl, hnull⟩⟩⟩
    cases schema with
    | scalar => cases hs
    | _ => rfl
  · exact hs

theorem suits_build (h : build schema place raw = .ok n) : schema.Suits defaults n := by
  cases schema with
  | any =>
    cases h
    cases raw with
    | object | array => exact .inr rfl
    | _ => exact ⟨rfl, fun hs => absurd rfl hs⟩
  | scalar type nullable =>
    obtain ⟨l, rfl, hl⟩ := eq_leaf_of_ofScalar h
    simp [Schema.Suits, hl, Schema.leafType, Schema.container?]
  | list element nullable =>
    rcases build_list_eq_ok_iff.1 h with hn | ⟨items, children, -, rfl, -⟩
    · exact suits_standIn rfl hn
    · exact .inl rfl
  | dict required optional extra nullable =>
    rcases build_dict_eq_ok_iff.1 h with hn | ⟨entries, cs₁, cs₂, cs₃, -, rfl, -⟩
    · exact suits_standIn rfl hn
    · exact .inl rfl

theorem ComesFrom.suits {steps : List Segment} (h : ComesFrom schema raw place steps n) :
    ∃ sub, schema.DeclaredAt steps sub ∧ sub.Suits (schema.DefaultAt steps sub) n := by
  cases h with
  | part hsub _ hn => exact ⟨_, hsub, suits_build hn⟩
  | default hsub _ hd => exact ⟨_, hsub, rfl, fun _ => ⟨_, rfl, .inr hd⟩⟩

/-- In a built tree, the address of each node leads to a schema that suits it. -/
theorem suits_of_mem_nodes {root : Node} (hs : schema.Accepted) (hraw : raw.DistinctKeys)
    (h : ofConfig schema raw = .ok root) :
    ∀ n ∈ root.nodes, ∃ sub, schema.descend? n.place.segments = some sub ∧
      sub.Suits (schema.DefaultAt n.place.segments sub) n := by
  intro n hn
  have hkeys : schema.DistinctKeys := hs.wellFormed.distinctKeys
  obtain ⟨sub, hsub, hsuits⟩ := (comesFrom_of_mem_nodes hkeys hraw h hn).suits
  exact ⟨sub, hkeys.descend?_eq hsub, hsuits⟩

/-- A list of ports, limits by default, and a further section that is free-form. -/
theorem suits_of_ports :
    let limits : Schema := .dict [] [] (some .any) false
    let schema : Schema := .dict [("ports", .list (.scalar .integer true) false)]
      [("limits", limits, some (.dict []))] (some .any) false
    let raw : Json := .object [("ports", .array [.string "80", .null]),
      ("note", .object [("0", .null)])]
    let root : Node := .dict .root [
      ("ports", .list (Keypath.root.key "ports") [
        openLeaf ((Keypath.root.key "ports").index 0) (.scalar .integer) (.string "80"),
        presetLeaf ((Keypath.root.key "ports").index 1) (.scalar .integer) .null .null]),
      ("limits", presetLeaf (Keypath.root.key "limits") .any .null (.dict [])),
      ("note", .dict (Keypath.root.key "note") [
        ("0", presetLeaf ((Keypath.root.key "note").key "0") .any .null .null)])]
    ofConfig schema raw = .ok root ∧
      ∀ n ∈ root.nodes, ∃ sub, schema.descend? n.place.segments = some sub ∧
        sub.Suits (schema.DefaultAt n.place.segments sub) n := by
  intro limits schema raw root
  have hs : schema.Accepted :=
    ⟨.object [("type", .string "dict"),
      ("required_keys", .object [("ports", .object [("type", .string "list"),
        ("element_schema", .object [("type", .string "integer"), ("nullable", .bool true)])])]),
      ("optional_keys", .object [("limits", .object [("type", .string "dict"),
        ("extra_keys_schema", .object [("type", .string "any")]), ("default", .object [])])]),
      ("extra_keys_schema", .object [("type", .string "any")])],
      by simp, rfl⟩
  have hraw : raw.DistinctKeys := by simp [raw]
  have hbuild : ofConfig schema raw = .ok root :=
    (ofConfig_eq_build hs.wellFormed.distinctKeys hraw).trans rfl
  exact ⟨hbuild, suits_of_mem_nodes hs hraw hbuild⟩

end Node
end TypedConfig

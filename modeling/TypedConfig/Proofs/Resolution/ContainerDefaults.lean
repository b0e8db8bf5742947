import TypedConfig.Proofs.Json.AsValue
import TypedConfig.Proofs.Resolution.Shape
import TypedConfig.Proofs.Tree.FitsParts
import TypedConfig.Proofs.Tree.Matches

/-!
# Defaults of containers

A default of a container is a document that matches the schema as a configuration does, but it is
kept as it is, so that optional keys with defaults of their own may be missing in it. Apart from
them, what steps lead to in the default has the shape that the schema asks for there
(`Schema.HasShape`), and a configuration that leaves out the key gets the default unchanged
(`Resolver.shape_of_default`).
-/

namespace TypedConfig

namespace Schema

variable {schema sub : Schema} {raw part : Json} {s : Segment} {steps : List Segment}

/-! ### Parts of matching documents -/

theorem Matches.of_step? (hs : schema.WellFormed) (h : schema.Matches raw)
    (hj : raw.step? s = some part) : ∃ child, schema.child? s = some child ∧ child.Matches part := by
  cases h with
  | null => cases s <;> cases hj
  | any => exact ⟨.any, by cases s <;> rfl, .any part⟩
  | scalar hraw =>
    cases raw with
    | null | array | object => cases hraw
    | _ => cases s <;> cases hj
  | reference => cases s <;> cases hj
  | list hitems =>
    cases s with
    | key k => cases hj
    | index i => exact ⟨_, rfl, hitems part (List.mem_of_getElem? hj)⟩
  | @dict required optional extra nullable entries _ hrequired _ hoptional hadmitted hextra =>
    cases s with
    | index i => cases hj
    | key k =>
      cases hs with
      | dict nodup =>
        by_cases hk : k ∈ required.map Prod.fst ++ optional.map Prod.fst
        · rcases List.mem_append.1 hk with hk | hk
          · obtain ⟨e, he, rfl⟩ := List.mem_map.1 hk
            exact ⟨e.2, child?_required nodup he, hrequired e he part hj⟩
          · obtain ⟨e, he, rfl⟩ := List.mem_map.1 hk
            exact ⟨e.2.1, child?_optional nodup he, hoptional e he part hj⟩
        · obtain ⟨schema, hschema⟩ :=
            Option.ne_none_iff_exists'.1 (hadmitted _ (mem_of_lookup hj) hk)
          exact ⟨schema, (child?_undeclared hk).trans hschema,
            hextra _ (mem_of_lookup hj) hk schema hschema⟩

theorem Matches.of_reach? (hs : schema.WellFormed) (h : schema.Matches raw)
    (hj : raw.reach? steps = some part) :
    ∃ sub, schema.descend? steps = some sub ∧ sub.Matches part := by
  induction steps generalizing schema raw with
  | nil =>
    cases hj
    exact ⟨schema, rfl, h⟩
  | cons s steps ih =>
    obtain ⟨next, hnext, hj⟩ := Option.bind_eq_some_iff.1 hj
    obtain ⟨child, hchild, hmatch⟩ := h.of_step? hs hnext
    obtain ⟨sub, hsub, hmatch⟩ := ih (hs.of_child? hchild) hmatch hj
    exact ⟨sub, (descend?_cons hchild steps).trans hsub, hmatch⟩

/-! ### Shapes -/

/-- At its top, the value has the shape that the schema asks for, or it is null and may be. A dict
has the required keys and the optional ones without a default, and no others than declared ones if
these are not admitted; a scalar is one of a document, not parsed for its type. -/
def HasShape : Schema → Value → Prop
  | dict required optional extra nullable, v => v = .null ∧ nullable = true ∨
      ∃ entries, v = .dict entries ∧ (entries.map Prod.fst).Nodup ∧
        (∀ e ∈ required, e.1 ∈ entries.map Prod.fst) ∧
        (∀ e ∈ optional, e.2.2 = none → e.1 ∈ entries.map Prod.fst) ∧
        ∀ k ∈ entries.map Prod.fst,
          k ∉ required.map Prod.fst ++ optional.map Prod.fst → extra ≠ none
  | list _ nullable, v => v = .null ∧ nullable = true ∨ ∃ items, v = .list items
  | scalar _ nullable, v => v = .null ∧ nullable = true ∨
      ∃ j : Json, j.isScalar = true ∧ v = .ofJson j
  | any, _ => True

/-- The value is the text of a reference where the schema has a container. -/
def IsReference (schema : Schema) (v : Value) : Prop :=
  schema.container? ≠ none ∧ ∃ s, v = .string s ∧ Template.soleReference? s ≠ none

theorem hasShape_of_matches (hraw : raw.DistinctKeys) (h : schema.Matches raw) :
    schema.IsReference (.ofJson raw) ∨ schema.HasShape (.ofJson raw) := by
  cases h with
  | null hnull =>
    cases schema with
    | any => exact .inr trivial
    | _ => exact .inr (.inl ⟨rfl, hnull⟩)
  | any => exact .inr trivial
  | scalar hscalar => exact .inr (.inr ⟨raw, hscalar, rfl⟩)
  | @reference _ container s name hs hname => exact .inl ⟨by simp [hs], s, rfl, by simp [hname]⟩
  | list => exact .inr (.inr ⟨_, rfl⟩)
  | @dict required optional extra nullable entries hpresent _ hdefault _ hadmitted _ =>
    have hkeys : (Value.ofJsonEntries entries).map Prod.fst = entries.map Prod.fst := by
      simp [Value.ofJsonEntries_eq_map, Function.comp_def]
    refine .inr (.inr ⟨_, rfl, ?_⟩)
    rw [hkeys]
    cases hraw with
    | object hnodup =>
      refine ⟨hnodup, fun e he => mem_keys_of_lookup (hpresent e he), fun e he hnone => ?_,
        fun k hk hundeclared => ?_⟩
      · exact mem_keys_of_lookup fun hlookup => hdefault e he hlookup hnone
      · obtain ⟨e, he, rfl⟩ := List.mem_map.1 hk
        exact hadmitted e he hundeclared

/-! ### Defaults -/

theorem matches_of_defaultOfContainer {d : Value} (hs : schema.DistinctKeys)
    (hraw : raw.DistinctKeys) (h : defaultOfContainer schema raw = .ok d) :
    schema.Matches raw ∧ d = .ofJson raw := by
  unfold defaultOfContainer at h
  split at h
  · next root hroot =>
    cases h
    exact ⟨(Node.exists_ofConfig_iff_matches hs hraw).1.1 ⟨root, hroot⟩, rfl⟩
  · cases h

theorem HasDefault.exists_matches {d : Value} {container : Container} (hs : schema.DistinctKeys)
    (h : schema.HasDefault d) (hc : schema.container? = some container) (hnull : d ≠ .null) :
    ∃ j : Json, j.DistinctKeys ∧ schema.Matches j ∧ d = .ofJson j ∧ d.kind = container.kind := by
  obtain ⟨j, hj, h⟩ := h
  unfold defaultValue at h
  split at h
  · split at h
    · cases h
      exact absurd rfl hnull
    · cases h
  · split at h
    · cases hc
    · cases hc
      obtain ⟨hmatch, rfl⟩ := matches_of_defaultOfContainer hs hj h
      exact ⟨_, hj, hmatch, rfl, rfl⟩
    · cases hc
      obtain ⟨hmatch, rfl⟩ := matches_of_defaultOfContainer hs hj h
      exact ⟨_, hj, hmatch, rfl, rfl⟩
    · cases hc
    · cases h

end Schema

namespace Resolver

/-- The default of a container is a document that matches its schema, taken as it is. What steps
lead to in it has the shape that the schema asks for there, unless it is a reference where a
container is asked for. A configuration that leaves out the key resolves to a value that has the
default in that place. -/
theorem shape_of_default {schema sub : Schema} {place : List Segment} {d : Value}
    {container : Container} (hs : schema.Accepted) (hd : schema.DefaultAt place sub d)
    (hc : sub.container? = some container) (hnull : d ≠ .null) :
    (d.kind = container.kind ∧ ∃ j, sub.Matches j ∧ d = .ofJson j) ∧
    (∀ steps v, d.reach? steps = some v →
      ∃ s, sub.descend? steps = some s ∧ (s.IsReference v ∨ s.HasShape v)) ∧
    ∀ settings raw v parent k entries, place = parent ++ [.key k] → raw.DistinctKeys →
      (Resolver.mk schema settings).resolve raw = .ok v →
      raw.reach? parent = some (.object entries) → entries.lookup k = none →
      v.reach? place = some d := by
  have hsub : sub.WellFormed := hd.wellFormed hs.wellFormed
  obtain ⟨j, hj, hmatch, heq, hkind⟩ :=
    (hd.hasDefault hs.wellFormed).exists_matches hsub.distinctKeys hc hnull
  refine ⟨⟨hkind, j, hmatch, heq⟩, fun steps v hv => ?_, ?_⟩
  · rw [heq, Value.reach?_ofJson] at hv
    obtain ⟨part, hpart, rfl⟩ := Option.map_eq_some_iff.1 hv
    obtain ⟨s, hs', hpartMatch⟩ := hmatch.of_reach? hsub hpart
    exact ⟨s, hs', Schema.hasShape_of_matches (hj.of_reach? hpart) hpartMatch⟩
  · intro settings raw v parent k entries hplace hraw hv hparent hk
    have hfits : schema.Fits (fun _ _ _ => True) raw v :=
      fits_of_typedValue (r := ⟨schema, settings⟩) (fun _ _ _ _ _ _ => trivial)
        hs.distinctKeys hraw hv
    cases hd with
    | mk hsteps hmem =>
      obtain ⟨rfl, hkey⟩ := List.append_inj' hplace rfl
      cases hkey
      have hparent' := hs.distinctKeys.descend?_eq hsteps
      exact hfits.default_of_absent hs.wellFormed hraw hparent' hmem hparent hk

/-- A server in a list, with further keys and a text that is not taken as a template. -/
theorem shape_of_server :
    let server : Schema := .dict [("host", .scalar .string false)]
      [("ports", .list (.scalar .integer true) false, some (.list []))] (some .any) false
    let d : Value := .dict [("host", .string "$\x7bname\x7d"), ("note", .dict [("0", .null)])]
    let zone : Schema := .dict [] [("server", server, some d)] none false
    let place : List Segment := [.key "zones", .index 0, .key "server"]
    (d.kind = .dict ∧ ∃ j, server.Matches j ∧ d = .ofJson j) ∧
    (∀ steps v, d.reach? steps = some v →
      ∃ s, server.descend? steps = some s ∧ (s.IsReference v ∨ s.HasShape v)) ∧
    ∃ v, (ofSchema (.dict [("zones", .list zone false)] [] none false)).resolve
      (.object [("zones", .array [.object []])]) = .ok v ∧ v.reach? place = some d := by
  intro server d zone place
  have hs : (Schema.dict [("zones", .list zone false)] [] none false).Accepted :=
    ⟨.object [("type", .string "dict"), ("required_keys", .object [("zones", .object [
      ("type", .string "list"), ("element_schema", .object [("type", .string "dict"),
        ("optional_keys", .object [("server", .object [("type", .string "dict"),
          ("required_keys", .object [("host", .object [("type", .string "string")])]),
          ("optional_keys", .object [("ports", .object [("type", .string "list"),
            ("element_schema", .object [("type", .string "integer"), ("nullable", .bool true)]),
            ("default", .array [])])]),
          ("extra_keys_schema", .object [("type", .string "any")]),
          ("default", .object [("host", .string "$\x7bname\x7d"),
            ("note", .object [("0", .null)])])])])])])])], by simp, by cbv⟩
  have hzone : (Schema.dict [("zones", .list zone false)] [] none false).DeclaredAt
      [.key "zones", .index 0] zone := Schema.declaredAt_of_descend? rfl
  have hd : (Schema.dict [("zones", .list zone false)] [] none false).DefaultAt place server d :=
    .mk hzone (List.mem_singleton_self _)
  have hraw : (Json.object [("zones", .array [.object []])]).DistinctKeys := by simp
  have hnull : d ≠ .null := by simp [d]
  obtain ⟨hdefault, hshape, hused⟩ := shape_of_default hs hd rfl hnull
  have hresolve : (ofSchema (.dict [("zones", .list zone false)] [] none false)).resolve
      (.object [("zones", .array [.object []])]) =
        .ok (.dict [("zones", .list [.dict [("server", d)]])]) := rfl
  exact ⟨hdefault, hshape, _, hresolve,
    hused .initial _ _ [.key "zones", .index 0] "server" [] rfl hraw hresolve rfl rfl⟩

/-- An optional key is missing in a default, though it has a default of its own and is filled in
where the container is given; and a reference in place of a container stays a text. -/
theorem default_without_nested_default :
    let limits : Schema := .dict [] [("cpu", .scalar .integer false, some (.integer 1))] none false
    let schema : Schema := .dict [] [("limits", limits, some (.dict []))] none false
    let box : Schema := .dict [("inner", .dict [] [] none false)] [] none false
    let boxed : Value := .dict [("inner", .string "$\x7bthis.other\x7d")]
    let schema' : Schema := .dict [] [("box", box, some boxed)] none false
    (schema.Accepted ∧ schema.DefaultAt [.key "limits"] limits (.dict []) ∧
      limits.child? (.key "cpu") = some (.scalar .integer false) ∧
      (Value.dict []).step? (.key "cpu") = none ∧
      (ofSchema schema).resolve (.object []) = .ok (.dict [("limits", .dict [])]) ∧
      (ofSchema schema).resolve (.object [("limits", .object [])]) =
        .ok (.dict [("limits", .dict [("cpu", .integer 1)])])) ∧
    schema'.Accepted ∧ schema'.DefaultAt [.key "box"] box boxed ∧
      box.child? (.key "inner") = some (.dict [] [] none false) ∧
      boxed.step? (.key "inner") = some (.string "$\x7bthis.other\x7d") := by
  intro limits schema box boxed schema'
  have hlimits : schema.Accepted :=
    ⟨.object [("type", .string "dict"), ("optional_keys", .object [("limits", .object [
      ("type", .string "dict"), ("optional_keys", .object [("cpu", .object [
        ("type", .string "integer"), ("default", .number (.whole 1 (by decide)))])]),
      ("default", .object [])])])], by simp, by cbv⟩
  have hbox : schema'.Accepted :=
    ⟨.object [("type", .string "dict"), ("optional_keys", .object [("box", .object [
      ("type", .string "dict"), ("required_keys", .object [("inner", .object [
        ("type", .string "dict")])]),
      ("default", .object [("inner", .string "$\x7bthis.other\x7d")])])])], by simp, by cbv⟩
  exact ⟨⟨hlimits, .mk (.self _) (List.mem_singleton_self _), rfl, rfl, rfl, rfl⟩,
    hbox, .mk (.self _) (List.mem_singleton_self _), rfl, rfl⟩

end Resolver
end TypedConfig

import TypedConfig.Proofs.Resolution.WrittenScalar
import TypedConfig.Proofs.Tree.FitsParts

/-!
# Resolving what was resolved

The value of a plain configuration is written as a plain configuration that resolves to the same
value (`Resolver.resolve_toJson`). Absent keys are written with their defaults, so that it takes
defaults that are read as they are written: those of leaves are, as long as no string in them opens
a reference.
-/

namespace TypedConfig

namespace Schema

/-- In a configuration, an optional key with a schema is absent and gets a default. -/
inductive Fills : Schema → Json → Schema → Value → Prop
  | absent {required : List (String × Schema)} {optional : List (String × Schema × Option Value)}
      {extra : Option Schema} {nullable : Bool} {entries : List (String × Json)} {k : String}
      {schema : Schema} {d : Value} (hk : (k, schema, some d) ∈ optional)
      (habsent : entries.lookup k = none) :
      Fills (.dict required optional extra nullable) (.object entries) schema d
  | required {required : List (String × Schema)} {optional : List (String × Schema × Option Value)}
      {extra : Option Schema} {nullable : Bool} {entries : List (String × Json)} {k : String}
      {child schema : Schema} {j : Json} {d : Value} (hk : (k, child) ∈ required)
      (hj : entries.lookup k = some j) (h : Fills child j schema d) :
      Fills (.dict required optional extra nullable) (.object entries) schema d
  | optional {required : List (String × Schema)} {optional : List (String × Schema × Option Value)}
      {extra : Option Schema} {nullable : Bool} {entries : List (String × Json)} {k : String}
      {child schema : Schema} {default : Option Value} {j : Json} {d : Value}
      (hk : (k, child, default) ∈ optional) (hj : entries.lookup k = some j)
      (h : Fills child j schema d) :
      Fills (.dict required optional extra nullable) (.object entries) schema d
  | extra {required : List (String × Schema)} {optional : List (String × Schema × Option Value)}
      {nullable : Bool} {entries : List (String × Json)} {e : String × Json}
      {child schema : Schema} {d : Value}
      (he : e ∈ entries.filter fun e =>
        !(required.map Prod.fst ++ optional.map Prod.fst).contains e.1)
      (h : Fills child e.2 schema d) :
      Fills (.dict required optional (some child) nullable) (.object entries) schema d
  | item {element schema : Schema} {nullable : Bool} {items : List Json} {j : Json} {d : Value}
      (hj : j ∈ items) (h : Fills element j schema d) :
      Fills (.list element nullable) (.array items) schema d

/-- The document of a value is plain, and the value fits it. -/
structure Restores (schema : Schema) (v : Value) : Prop where
  plain : v.toJson.Plain
  fits : schema.Fits LeafType.Reads v.toJson v

theorem restores_leaf {schema : Schema} {v : Value} (hleaf : schema.container? = none)
    (h : schema.leafType.Restores v) : schema.Restores v :=
  ⟨h.plain, .leaf hleaf h.isScalar h.reads⟩

/-- What it takes for a value to be restored: distinct keys, a plain configuration, doubles and
defaults that can be written. -/
structure Stable (schema : Schema) (raw : Json) (v : Value) : Prop where
  keys : schema.DistinctKeys
  plain : raw.Plain
  floats : ∀ x, v.Contains (.float x) → IsWritableFloat x
  defaults : ∀ s d, schema.Fills raw s d → (∀ x, d.Contains (.float x) → IsWritableFloat x) →
    s.Restores d

namespace Stable

theorem item {element : Schema} {nullable : Bool} {items : List Json} {vs : List Value} :
    Stable (.list element nullable) (.array items) (.list vs) →
      ∀ j ∈ items, ∀ v ∈ vs, Stable element j v
  | ⟨.list hkeys, .array hplain, hfloats, hdefaults⟩, j, hj, _, hv =>
    ⟨hkeys, hplain j hj, fun x hx => hfloats x (.item hv hx),
      fun s d hd => hdefaults s d (.item hj hd)⟩

theorem anyItem {items : List Json} {vs : List Value} :
    Stable .any (.array items) (.list vs) → ∀ j ∈ items, ∀ v ∈ vs, Stable .any j v
  | ⟨hkeys, .array hplain, hfloats, _⟩, j, hj, _, hv =>
    ⟨hkeys, hplain j hj, fun x hx => hfloats x (.item hv hx), nofun⟩

theorem anyEntry {entries : List (String × Json)} {vs : List (String × Value)} :
    Stable .any (.object entries) (.dict vs) →
      ∀ schema, some .any = some schema → ∀ e ∈ entries, ∀ e' ∈ vs, Stable schema e.2 e'.2
  | ⟨hkeys, .object _ hplain, hfloats, _⟩, _, rfl, e, he, _, he' =>
    ⟨hkeys, hplain e he, fun x hx => hfloats x (.entry he' hx), nofun⟩

variable {required : List (String × Schema)} {optional : List (String × Schema × Option Value)}
  {extra : Option Schema} {nullable : Bool} {entries : List (String × Json)}
  {vs : List (String × Value)}

theorem requiredEntry :
    Stable (.dict required optional extra nullable) (.object entries) (.dict vs) →
      ∀ e ∈ required, ∀ j, entries.lookup e.1 = some j → ∀ e' ∈ vs, Stable e.2 j e'.2
  | ⟨.dict _ hkeys _ _, .object _ hplain, hfloats, hdefaults⟩, e, he, _, hj, _, he' =>
    ⟨hkeys e he, hplain _ (mem_of_lookup hj), fun x hx => hfloats x (.entry he' hx),
      fun s d hd => hdefaults s d (.required he hj hd)⟩

theorem optionalEntry :
    Stable (.dict required optional extra nullable) (.object entries) (.dict vs) →
      ∀ e ∈ optional, ∀ j, entries.lookup e.1 = some j → ∀ e' ∈ vs, Stable e.2.1 j e'.2
  | ⟨.dict _ _ hkeys _, .object _ hplain, hfloats, hdefaults⟩, e, he, _, hj, _, he' =>
    ⟨hkeys e he, hplain _ (mem_of_lookup hj), fun x hx => hfloats x (.entry he' hx),
      fun s d hd => hdefaults s d (.optional he hj hd)⟩

theorem absentEntry
    (h : Stable (.dict required optional extra nullable) (.object entries) (.dict vs)) :
    ∀ e ∈ optional, entries.lookup e.1 = none → ∀ e' ∈ vs, e.2.2 = some e'.2 →
      e.2.1.Restores e'.2 := by
  rintro ⟨k, schema, default⟩ he hnone e' he' rfl
  exact h.defaults schema _ (.absent he hnone) fun x hx => h.floats x (.entry he' hx)

theorem extraEntry :
    Stable (.dict required optional extra nullable) (.object entries) (.dict vs) →
      ∀ schema, extra = some schema → ∀ e ∈ entries.filter fun e =>
        !(required.map Prod.fst ++ optional.map Prod.fst).contains e.1, ∀ e' ∈ vs,
          Stable schema e.2 e'.2
  | ⟨.dict _ _ _ hkeys, .object _ hplain, hfloats, hdefaults⟩, schema, hs, e, he, _, he' =>
    ⟨hkeys schema hs, hplain e (List.mem_filter.1 he).1, fun x hx => hfloats x (.entry he' hx),
      fun s d hd => hdefaults s d (hs ▸ .extra he hd)⟩

end Stable

/-! ### Keys -/

variable {holds : LeafType → Json → Value → Prop}

theorem Stable.nodup_keys {required : List (String × Schema)}
    {optional : List (String × Schema × Option Value)} {extra : Option Schema} {nullable : Bool}
    {entries : List (String × Json)} {rs os es : List (String × Value)} {v : Value}
    (h : Stable (.dict required optional extra nullable) (.object entries) v)
    (hr : FitsRequired holds entries required rs) (ho : FitsOptional holds entries optional os)
    (he : FitsExtra holds extra (entries.filter fun e =>
      !(required.map Prod.fst ++ optional.map Prod.fst).contains e.1) es) :
    ((rs ++ os ++ es).map Prod.fst).Nodup := by
  obtain ⟨hkeys, hplain, -, -⟩ := h
  cases hkeys with
  | dict hdeclared =>
    cases hplain with
    | object hnodup => exact nodup_keys_of_fits hdeclared hnodup hr ho he

theorem filter_toJsonEntries {declared : List String} {vs es : List (String × Value)}
    (hdeclared : vs.map Prod.fst = declared) (hkeys : ((vs ++ es).map Prod.fst).Nodup) :
    (Value.toJsonEntries (vs ++ es)).filter (fun e => !declared.contains e.1) =
      Value.toJsonEntries es := by
  subst hdeclared
  rw [List.map_append, List.nodup_append] at hkeys
  have hnil : vs.filter (fun e => !(vs.map Prod.fst).contains e.1) = [] :=
    List.filter_eq_nil_iff.2 fun e he => by simpa using ⟨e.2, he⟩
  have hself : es.filter (fun e => !(vs.map Prod.fst).contains e.1) = es := by
    refine List.filter_eq_self.2 fun e he => ?_
    rw [Bool.not_eq_true', ← Bool.not_eq_true, List.contains_iff_mem]
    exact fun hmem => hkeys.2.2 _ hmem _ (List.mem_map_of_mem he) rfl
  rw [Value.toJsonEntries_eq_map, Value.toJsonEntries_eq_map, List.filter_map, List.filter_append]
  exact congrArg _ ((congrArg₂ _ hnil hself).trans (List.nil_append es))

theorem lookup_toJsonEntries {vs : List (String × Value)} (hkeys : (vs.map Prod.fst).Nodup) :
    ∀ e ∈ vs, (Value.toJsonEntries vs).lookup e.1 = some e.2.toJson := by
  intro e he
  rw [Value.toJsonEntries_eq_map, lookup_eq_some_iff_mem (by simpa [Function.comp_def] using hkeys)]
  exact List.mem_map_of_mem he

/-! ### Values that fit -/

theorem plain_toJson_list {vs : List Value} (h : ∀ v ∈ vs, v.toJson.Plain) :
    (Value.list vs).toJson.Plain := by
  rw [Value.toJson, Value.toJsonItems_eq_map]
  exact .array (by simpa using h)

theorem plain_toJson_dict {vs : List (String × Value)} (hkeys : (vs.map Prod.fst).Nodup)
    (h : ∀ e ∈ vs, e.2.toJson.Plain) : (Value.dict vs).toJson.Plain := by
  rw [Value.toJson, Value.toJsonEntries_eq_map]
  refine .object (by simpa [Function.comp_def] using hkeys) fun e he => ?_
  obtain ⟨e', he', rfl⟩ := List.mem_map.1 he
  exact h e' he'

mutual

theorem restores_of_fits : ∀ {schema : Schema} {raw : Json} {v : Value},
    schema.Fits LeafType.Reads raw v → Stable schema raw v → schema.Restores v
  | _, _, _, .null hnull, _ => ⟨.null, .null hnull⟩
  | _, _, _, .leaf hleaf hscalar hv, h =>
    restores_leaf hleaf (LeafType.restores_of_reads hscalar h.plain
      (fun x hx => h.floats x (hx ▸ .refl _)) hv)
  | _, _, _, .alias _ hname _, h => by
    cases h.plain with
    | string hopening => rw [Template.soleReference?_of_plain hopening] at hname; cases hname
  | _, _, _, .list hitems, h => by
    obtain ⟨hfits, hplain⟩ := restores_items hitems h.item
    exact ⟨plain_toJson_list hplain, .list hfits⟩
  | _, _, _, .anyList hitems, h => by
    obtain ⟨hfits, hplain⟩ := restores_items hitems h.anyItem
    exact ⟨plain_toJson_list hplain, .anyList hfits⟩
  | _, _, _, .anyDict hentries, h => by
    obtain ⟨hfits, hplain⟩ := restores_extra hentries h.anyEntry
    have hkeys : _ := hentries.map_fst
    cases h.plain with
    | object hnodup _ => exact ⟨plain_toJson_dict (hkeys ▸ hnodup) hplain, .anyDict hfits⟩
  | _, _, _, .dict hr ho he, h => by
    have hdeclared := congrArg₂ (· ++ ·) hr.map_fst ho.map_fst
    simp only [← List.map_append] at hdeclared
    have hnodup := h.nodup_keys hr ho he
    have hlookup := lookup_toJsonEntries hnodup
    obtain ⟨hfits₁, hplain₁⟩ := restores_required hr
      (fun e he j hj e' he' => h.requiredEntry e he j hj e' (by simp [he']))
      (fun e he => hlookup e (by simp [he]))
    obtain ⟨hfits₂, hplain₂⟩ := restores_optional ho
      (fun e he j hj e' he' => h.optionalEntry e he j hj e' (by simp [he']))
      (fun e he hnone e' he' => h.absentEntry e he hnone e' (by simp [he']))
      (fun e he => hlookup e (by simp [he]))
    obtain ⟨hfits₃, hplain₃⟩ := restores_extra he fun s hs e he e' he' =>
      h.extraEntry s hs e he e' (by simp [he'])
    refine ⟨plain_toJson_dict hnodup (List.forall_mem_append.2 ⟨List.forall_mem_append.2
      ⟨hplain₁, hplain₂⟩, hplain₃⟩), .dict hfits₁ hfits₂ ?_⟩
    rwa [filter_toJsonEntries hdeclared hnodup]

theorem restores_items : ∀ {element : Schema} {js : List Json} {vs : List Value},
    FitsItems LeafType.Reads element js vs → (∀ j ∈ js, ∀ v ∈ vs, Stable element j v) →
      FitsItems LeafType.Reads element (Value.toJsonItems vs) vs ∧ ∀ v ∈ vs, v.toJson.Plain
  | _, _, _, .nil, _ => ⟨.nil, by simp⟩
  | _, _, _, .cons hv hvs, h => by
    obtain ⟨hplain, hfits⟩ :=
      restores_of_fits hv (h _ (List.mem_cons_self ..) _ (List.mem_cons_self ..))
    obtain ⟨hrest, hplains⟩ := restores_items hvs fun j hj v hv =>
      h j (List.mem_cons_of_mem _ hj) v (List.mem_cons_of_mem _ hv)
    exact ⟨.cons hfits hrest, List.forall_mem_cons.2 ⟨hplain, hplains⟩⟩

theorem restores_required {entries' : List (String × Json)} : ∀ {entries : List (String × Json)}
    {required : List (String × Schema)} {vs : List (String × Value)},
    FitsRequired LeafType.Reads entries required vs →
    (∀ e ∈ required, ∀ j, entries.lookup e.1 = some j → ∀ e' ∈ vs, Stable e.2 j e'.2) →
    (∀ e ∈ vs, entries'.lookup e.1 = some e.2.toJson) →
      FitsRequired LeafType.Reads entries' required vs ∧ ∀ e ∈ vs, e.2.toJson.Plain
  | _, _, _, .nil, _, _ => ⟨.nil, by simp⟩
  | _, _, _, .cons hj hv hvs, h, hlookup => by
    obtain ⟨hplain, hfits⟩ :=
      restores_of_fits hv (h _ (List.mem_cons_self ..) _ hj _ (List.mem_cons_self ..))
    obtain ⟨hlookup₁, hlookup⟩ := List.forall_mem_cons.1 hlookup
    obtain ⟨hrest, hplains⟩ := restores_required hvs (fun e he j hj e' he' =>
      h e (List.mem_cons_of_mem _ he) j hj e' (List.mem_cons_of_mem _ he')) hlookup
    exact ⟨.cons hlookup₁ hfits hrest, List.forall_mem_cons.2 ⟨hplain, hplains⟩⟩

theorem restores_optional {entries' : List (String × Json)} : ∀ {entries : List (String × Json)}
    {optional : List (String × Schema × Option Value)} {vs : List (String × Value)},
    FitsOptional LeafType.Reads entries optional vs →
    (∀ e ∈ optional, ∀ j, entries.lookup e.1 = some j → ∀ e' ∈ vs, Stable e.2.1 j e'.2) →
    (∀ e ∈ optional, entries.lookup e.1 = none → ∀ e' ∈ vs, e.2.2 = some e'.2 →
      e.2.1.Restores e'.2) →
    (∀ e ∈ vs, entries'.lookup e.1 = some e.2.toJson) →
      FitsOptional LeafType.Reads entries' optional vs ∧ ∀ e ∈ vs, e.2.toJson.Plain
  | _, _, _, .nil, _, _, _ => ⟨.nil, by simp⟩
  | _, _, _, .present hj hv hvs, h, hdefaults, hlookup => by
    obtain ⟨hplain, hfits⟩ :=
      restores_of_fits hv (h _ (List.mem_cons_self ..) _ hj _ (List.mem_cons_self ..))
    obtain ⟨hlookup₁, hlookup⟩ := List.forall_mem_cons.1 hlookup
    obtain ⟨hrest, hplains⟩ := restores_optional hvs (fun e he j hj e' he' =>
      h e (List.mem_cons_of_mem _ he) j hj e' (List.mem_cons_of_mem _ he'))
      (fun e he hnone e' he' =>
        hdefaults e (List.mem_cons_of_mem _ he) hnone e' (List.mem_cons_of_mem _ he')) hlookup
    exact ⟨.present hlookup₁ hfits hrest, List.forall_mem_cons.2 ⟨hplain, hplains⟩⟩
  | _, _, _, .absent hj hvs, h, hdefaults, hlookup => by
    obtain ⟨hplain, hfits⟩ :=
      hdefaults _ (List.mem_cons_self ..) hj _ (List.mem_cons_self ..) rfl
    obtain ⟨hlookup₁, hlookup⟩ := List.forall_mem_cons.1 hlookup
    obtain ⟨hrest, hplains⟩ := restores_optional hvs (fun e he j hj e' he' =>
      h e (List.mem_cons_of_mem _ he) j hj e' (List.mem_cons_of_mem _ he'))
      (fun e he hnone e' he' =>
        hdefaults e (List.mem_cons_of_mem _ he) hnone e' (List.mem_cons_of_mem _ he')) hlookup
    exact ⟨.present hlookup₁ hfits hrest, List.forall_mem_cons.2 ⟨hplain, hplains⟩⟩

theorem restores_extra : ∀ {extra : Option Schema} {js : List (String × Json)}
    {vs : List (String × Value)}, FitsExtra LeafType.Reads extra js vs →
    (∀ schema, extra = some schema → ∀ e ∈ js, ∀ e' ∈ vs, Stable schema e.2 e'.2) →
      FitsExtra LeafType.Reads extra (Value.toJsonEntries vs) vs ∧ ∀ e ∈ vs, e.2.toJson.Plain
  | _, _, _, .nil, _ => ⟨.nil, by simp⟩
  | _, _, _, .cons hv hvs, h => by
    obtain ⟨hplain, hfits⟩ :=
      restores_of_fits hv (h _ rfl _ (List.mem_cons_self ..) _ (List.mem_cons_self ..))
    obtain ⟨hrest, hplains⟩ := restores_extra hvs fun schema hs e he e' he' =>
      h schema hs e (List.mem_cons_of_mem _ he) e' (List.mem_cons_of_mem _ he')
    exact ⟨.cons hfits hrest, List.forall_mem_cons.2 ⟨hplain, hplains⟩⟩

end

/-! ### Defaults -/

mutual

theorem fits_ofJson : ∀ j : Json, Fits LeafType.Reads .any j (.ofJson j)
  | .null => .null rfl
  | .bool _ | .number _ | .string _ => .leaf rfl rfl fun _ => rfl
  | .array items => .anyList (fits_ofJsonItems items)
  | .object entries => .anyDict (fits_ofJsonEntries entries)

theorem fits_ofJsonItems : ∀ js : List Json,
    FitsItems LeafType.Reads .any js (Value.ofJsonItems js)
  | [] => .nil
  | j :: js => .cons (fits_ofJson j) (fits_ofJsonItems js)

theorem fits_ofJsonEntries : ∀ js : List (String × Json),
    FitsExtra LeafType.Reads (some .any) js (Value.ofJsonEntries js)
  | [] => .nil
  | (_, j) :: js => .cons (fits_ofJson j) (fits_ofJsonEntries js)

end

section
variable {schema : Schema} {d : Value} (hfloats : ∀ x, d.Contains (.float x) → IsWritableFloat x)
  (hstrings : ∀ s, d.Contains (.string s) → Template.hasOpening s.toList = false)
include hfloats hstrings

theorem restores_ofJson {j : Json} (hj : j.DistinctKeys) (hd : d = .ofJson j) :
    Schema.any.Restores d := by
  subst hd
  have hplain : j.Plain := hj.plain fun s hs => hstrings s (Value.contains_ofJson hs)
  exact restores_of_fits (fits_ofJson j) ⟨.any, hplain, hfloats, nofun⟩

theorem restores_defaultOfScalar {type : ScalarType} {nullable : Bool} {j : Json}
    (h : defaultOfScalar type j = .ok d) : (Schema.scalar type nullable).Restores d := by
  have hd : d.kind = type.kind ∧ d.IsWritable := by
    unfold defaultOfScalar at h
    split at h
    · cases h; exact ⟨rfl, hstrings _ (.refl _)⟩
    · split at h
      · cases h; exact ⟨rfl, trivial⟩
      · cases h
    · cases h; exact ⟨rfl, hfloats _ (.refl _)⟩
    · cases h; exact ⟨rfl, trivial⟩
    · split at h
      · cases h; exact ⟨rfl, trivial⟩
      · cases h
    · split at h
      · next hliteral => cases h; exact ⟨rfl, Calendar.DateTime.isProper_of_ofLiteral? hliteral⟩
      · cases h
    · cases h
  exact restores_leaf rfl (LeafType.restores_of_kind hd.1 hd.2)

/-- The default of a leaf is read as it is written. -/
theorem restores_default (hleaf : schema.container? = none) (h : schema.HasDefault d) :
    schema.Restores d := by
  obtain ⟨j, hj, h⟩ := h
  cases schema with
  | dict | list => cases hleaf
  | any =>
    refine restores_ofJson hfloats hstrings hj ?_
    cases j <;> cases h <;> rfl
  | scalar type nullable =>
    unfold defaultValue at h
    split at h
    · split at h
      · next hnull => cases h; exact ⟨.null, .null hnull⟩
      · cases h
    · exact restores_defaultOfScalar hfloats hstrings h

end

theorem WellFormed.hasDefault {schema child : Schema} {raw : Json} {d : Value}
    (hs : schema.WellFormed) (h : schema.Fills raw child d) : child.HasDefault d := by
  induction h with
  | absent hk _ =>
    cases hs with
    | dict _ _ _ hdefault => exact hdefault _ hk _ rfl
  | required hk _ _ ih =>
    cases hs with
    | dict _ hrequired => exact ih (hrequired _ hk)
  | optional hk _ _ ih =>
    cases hs with
    | dict _ _ hoptional => exact ih (hoptional _ hk)
  | extra _ _ ih =>
    cases hs with
    | dict _ _ _ _ hextra => exact ih (hextra _ rfl)
  | item _ _ ih =>
    cases hs with
    | list helement => exact ih helement

end Schema

namespace Resolver

variable {r : Resolver} {raw : Json} {v : Value}

/-- Resolving the document of a value again gives the value. -/
theorem resolve_toJson (hs : r.schema.Accepted) (hr : r.settings.IsBuiltin)
    (hraw : raw.DistinctKeys)
    (hstrings : ∀ s, raw.Contains (.string s) → Template.hasOpening s.toList = false)
    (hfloats : ∀ x, v.Contains (.float x) → IsWritableFloat x)
    (hdefaults : ∀ schema d, r.schema.Fills raw schema d → schema.container? = none ∧
      ∀ s, d.Contains (.string s) → Template.hasOpening s.toList = false)
    (h : r.resolve raw = .ok v) : r.resolve v.toJson = .ok v := by
  have hplain : raw.Plain := hraw.plain hstrings
  have hvars := (exists_solution h).1
  have hfits := (resolve_eq_ok_iff_fits hs.distinctKeys hr hvars hplain).1 h
  have hrestores : r.schema.Restores v := by
    refine Schema.restores_of_fits hfits
      ⟨hs.distinctKeys, hplain, hfloats, fun s d hd hfloats => ?_⟩
    obtain ⟨hleaf, hplain⟩ := hdefaults s d hd
    exact Schema.restores_default hfloats hplain hleaf (hs.wellFormed.hasDefault hd)
  exact (resolve_eq_ok_iff_fits hs.distinctKeys hr hvars hrestores.plain).2 hrestores.fits

theorem isWritableFloat_half : IsWritableFloat (Decimal.toFloat ⟨5, -1⟩) := by
  have htext : Decimal.jsonText (Decimal.toFloat ⟨5, -1⟩) = "0.5" := by decide +kernel
  refine ⟨by decide +kernel, fun cs d hd => ⟨fun h => ?_, fun h => ?_⟩⟩
  · rw [htext] at h
    subst h
    have hnumber : Expression.Arithmetic.splitNumber? "0.5".toList = some (⟨5, -1⟩, []) := by
      decide +kernel
    cases hnumber.symm.trans hd
    rfl
  · rw [htext] at h
    cases h

/-- A quotient, and a default. -/
theorem resolve_toJson_of_rate :
    (ofSchema (.dict [("rate", .scalar .float false)]
      [("debug", .scalar .boolean false, some (.bool false))] none false)).resolve
        (Value.dict [("rate", .float (Decimal.toFloat ⟨5, -1⟩)), ("debug", .bool false)]).toJson =
      .ok (.dict [("rate", .float (Decimal.toFloat ⟨5, -1⟩)), ("debug", .bool false)]) := by
  have hs : (Schema.dict [("rate", .scalar .float false)]
      [("debug", .scalar .boolean false, some (.bool false))] none false).Accepted :=
    ⟨.object [("type", .string "dict"),
      ("required_keys", .object [("rate", .object [("type", .string "float")])]),
      ("optional_keys", .object [("debug", .object
        [("type", .string "boolean"), ("default", .bool false)])])],
      .object (by simp) (by simp), by cbv⟩
  have hplain : (Json.object [("rate", .string "1 / 2")]).Plain :=
    .object (by simp) (by simpa using .string (by decide))
  have hquotient : Expression.Arithmetic.evaluate "1 / 2" = .ok (Decimal.toFloat ⟨5, -1⟩) := by
    decide +kernel
  have hreads : (LeafType.scalar .float).Reads (.string "1 / 2")
      (.float (Decimal.toFloat ⟨5, -1⟩)) := by
    intro _
    change LeafParser.float "1 / 2" = _
    rw [LeafParser.float, hquotient]
    rfl
  have hresolve :=
    (resolve_eq_ok_iff_fits (r := ofSchema _) hs.distinctKeys ⟨rfl, rfl⟩ rfl hplain).2
      (.dict (.cons rfl (.leaf rfl rfl hreads) .nil) (.absent rfl .nil) .nil)
  refine resolve_toJson hs ⟨rfl, rfl⟩ hplain.distinctKeys (fun s hs => ?_) (fun x hx => ?_)
    (fun schema d hd => ?_) hresolve
  · cases hs with
    | entry he hs =>
      obtain rfl := List.mem_singleton.1 he
      cases hs
      decide
  · cases hx with
    | entry he hx =>
      simp only [List.mem_cons, List.not_mem_nil, or_false] at he
      rcases he with rfl | rfl
      · cases hx
        exact isWritableFloat_half
      · cases hx
  · cases hd with
    | absent hk =>
      cases List.mem_singleton.1 hk
      exact ⟨rfl, fun s hs => by cases hs⟩
    | required hk _ hd =>
      cases List.mem_singleton.1 hk
      cases hd
    | optional hk hj =>
      cases List.mem_singleton.1 hk
      cases hj

end Resolver
end TypedConfig

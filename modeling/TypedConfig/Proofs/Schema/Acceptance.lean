import TypedConfig.Proofs.Schema.Reading
import TypedConfig.Resolver

/-!
# Accepted definitions

A document that has objects wherever definitions are expected is accepted if and only if it
describes a schema and has no default itself, and then this is the schema that is made of it. If it
is refused, the error is about a fault, and its place leads to something in the document
(`schemaOf_eq_ok_iff_describes`).
-/

namespace TypedConfig

namespace Schema

open Definition

section
variable {place : Keypath} {j part : Json} {field : Field} {steps : List Segment} {d : Definition}

theorem yields_refuseDefault (hp : j.Part field steps part) (hfield : field ≠ .optionalKeys)
    (hd : Represents (place.follow steps) part d) :
    Yields (refuseDefault d (place.follow steps)) (fun _ => part.default? = none)
      (fun e => e.About place j) := by
  unfold refuseDefault require
  rw [hd.1]
  cases hdefault : part.default? with
  | none => exact rfl
  | some raw => exact .here (.defaultMisplaced hp hfield (by simp [hdefault]))

theorem yields_ofPart (hp : j.Part field steps part)
    (hd : Represents (place.follow steps) part d) :
    Yields (ofDefinition (place.follow steps) d) (Describes part) (fun e => e.About place j) :=
  hd.2.mono (fun _ h => h) fun _ h => .inside hp h

theorem yields_default {schema : Schema} (hp : j.Part .optionalKeys steps part)
    (hd : Represents (place.follow steps) part d) (hschema : Describes part schema) :
    Yields (d.default.mapM fun raw =>
        located ((place.follow steps).key Field.default.name) (defaultValue schema raw))
      (fun default => part.default?.mapM (defaultValue schema) = .ok default)
      (fun e => e.About place j) := by
  rw [hd.1]
  cases hdefault : part.default? with
  | none => exact rfl
  | some raw =>
    cases hv : defaultValue schema raw with
    | ok v =>
      simp only [Option.mapM_some, hv]
      exact rfl
    | error fault =>
      have h : (SchemaError.mk (place.follow (steps ++ [.key Field.default.name])) fault).About
          place j := .here (.defaultUnfit hp hschema hdefault hv)
      rw [Keypath.follow_append, Keypath.follow_key] at h
      simp only [Option.mapM_some, hv]
      exact h

end

section
variable {place : Keypath} {entries : List (String × Json)}

theorem yields_ofRequiredKeys {rs : List (String × Json)} {keys : List (String × Definition)}
    (hparts : ∀ e ∈ rs, (Json.object entries).Part .requiredKeys
      [.key Field.requiredKeys.name, .key e.1] e.2)
    (h : KeysRead (place.key Field.requiredKeys.name) rs keys) :
    Yields (ofRequiredKeys (place.key Field.requiredKeys.name) keys) (DescribesRequired rs)
      (fun e => e.About place (.object entries)) := by
  induction h with
  | nil => exact .nil
  | @cons e key rs keys hhead _ ih =>
    obtain ⟨k, j⟩ := e
    obtain ⟨k', d⟩ := key
    obtain ⟨rfl, hd⟩ := hhead
    obtain ⟨hpart, hparts⟩ := List.forall_mem_cons.1 hparts
    rw [← Keypath.follow_key_key] at hd
    rw [ofRequiredKeys, ← Keypath.follow_key_key]
    refine (yields_refuseDefault hpart nofun hd).bind fun _ hdefault => ?_
    refine (yields_ofPart hpart hd).bind fun schema hschema => ?_
    exact (ih hparts).bind fun required hrequired => .cons hschema hdefault hrequired

theorem yields_ofOptionalKeys {os : List (String × Json)} {keys : List (String × Definition)}
    {declared : List String}
    (hparts : ∀ e ∈ os, (Json.object entries).Part .optionalKeys
      [.key Field.optionalKeys.name, .key e.1] e.2)
    (htwice : ∀ e ∈ os, e.1 ∈ declared →
      (Json.object entries).Violates [.key Field.optionalKeys.name, .key e.1] (.declaredTwice e.1))
    (h : KeysRead (place.key Field.optionalKeys.name) os keys) :
    Yields (ofOptionalKeys (place.key Field.optionalKeys.name) declared keys)
      (fun optional => DescribesOptional os optional ∧ ∀ k ∈ os.map Prod.fst, k ∉ declared)
      (fun e => e.About place (.object entries)) := by
  induction h with
  | nil => exact ⟨.nil, by simp⟩
  | @cons e key os keys hhead _ ih =>
    obtain ⟨k, j⟩ := e
    obtain ⟨k', d⟩ := key
    obtain ⟨rfl, hd⟩ := hhead
    obtain ⟨hpart, hparts⟩ := List.forall_mem_cons.1 hparts
    obtain ⟨htwice₁, htwice⟩ := List.forall_mem_cons.1 htwice
    rw [← Keypath.follow_key_key] at hd
    rw [ofOptionalKeys, ← Keypath.follow_key_key]
    have hnew : Yields (require (!declared.contains k)
        (place.follow [.key Field.optionalKeys.name, .key k]) (.declaredTwice k))
        (fun _ => k ∉ declared) (fun e => e.About place (.object entries)) := by
      unfold require
      cases hk : declared.contains k with
      | true => exact SchemaError.About.here (htwice₁ (List.contains_iff_mem.1 hk))
      | false =>
        have hnot : k ∉ declared := by simpa using hk
        exact hnot
    refine hnew.bind fun _ hk => ?_
    refine (yields_ofPart hpart hd).bind fun schema hschema => ?_
    refine (yields_default hpart hd hschema).bind fun default hdefault => ?_
    refine (ih hparts htwice).bind ?_
    rintro optional ⟨hoptional, hdisjoint⟩
    exact ⟨.cons hschema hdefault hoptional, List.forall_mem_cons.2 ⟨hk, hdisjoint⟩⟩

theorem yields_ofSole {field : Field} {d? : Option Definition}
    (hfield : field = .extraKeysSchema ∨ field = .elementSchema)
    (h : SoleRead (place.key field.name) (field.given? entries) d?) :
    Yields (ofSole (place.key field.name) d?) (DescribesSole (field.given? entries))
      (fun e => e.About place (.object entries)) := by
  cases hgiven : field.given? entries with
  | none =>
    rw [hgiven] at h
    have hnone : d? = none := h
    subst hnone
    exact .none
  | some part =>
    rw [hgiven] at h
    obtain ⟨d, rfl, hd⟩ := h
    have hpart : (Json.object entries).Part field [.key field.name] part := .sole hfield hgiven
    have hne : field ≠ .optionalKeys := by
      rcases hfield with rfl | rfl
      · exact nofun
      · exact nofun
    refine (yields_refuseDefault hpart hne hd).bind fun _ hdefault => ?_
    exact (yields_ofPart hpart hd).bind fun schema hschema => .some hschema hdefault

theorem yields_refuse {present : Bool} {field : Field} {type : SchemaType}
    (hname : entries.lookup Field.type.name = some (.string type.name))
    (hpresent : present = (field.given? entries).isSome) (htakes : ¬ type.Takes field) :
    Yields (refuse present place field type) (fun _ => field.given? entries = none)
      (fun e => e.About place (.object entries)) := by
  unfold refuse require
  rw [hpresent]
  cases hgiven : field.given? entries with
  | none => exact rfl
  | some j => exact about_key (.fieldMisplaced hname (by simp [hgiven]) htakes)

/-- The flag of a definition, which is not set unless it is given. -/
theorem flag_of_read {b? : Option Bool} (h : FlagRead (Field.nullable.given? entries) b?) :
    Field.nullable.given? entries = none ∧ b?.getD false = false ∨
      Field.nullable.given? entries = some (.bool (b?.getD false)) := by
  cases hgiven : Field.nullable.given? entries with
  | none =>
    rw [hgiven] at h
    have hnone : b? = none := h
    exact .inl ⟨rfl, by rw [hnone]; rfl⟩
  | some j =>
    rw [hgiven] at h
    obtain ⟨b, rfl, rfl⟩ := h
    exact .inr rfl

theorem isSome_of_groupRead {p : Keypath} {given? : Option Json}
    {keys? : Option (List (String × Definition))} (h : GroupRead p given? keys?) :
    keys?.isSome = given?.isSome := by
  cases given? with
  | none =>
    have hnone : keys? = none := h
    rw [hnone]
    rfl
  | some j =>
    obtain ⟨group, keys, -, rfl, -⟩ := h
    rfl

theorem isSome_of_soleRead {p : Keypath} {given? : Option Json} {d? : Option Definition}
    (h : SoleRead p given? d?) : d?.isSome = given?.isSome := by
  cases given? with
  | none =>
    have hnone : d? = none := h
    rw [hnone]
    rfl
  | some j =>
    obtain ⟨d, rfl, -⟩ := h
    rfl

/-- The fields of dicts are refused for another type. -/
theorem yields_refuseDictFields {d : Definition} {type : SchemaType} (hd : Read place entries d)
    (hname : d.type = type.name) (htype : type ≠ .dict) :
    Yields (refuseDictFields d place type)
      (fun _ => Field.requiredKeys.given? entries = none ∧
        Field.optionalKeys.given? entries = none ∧ Field.extraKeysSchema.given? entries = none)
      (fun e => e.About place (.object entries)) := by
  have hnamed : entries.lookup Field.type.name = some (.string type.name) := hname ▸ hd.type
  unfold refuseDictFields
  refine (yields_refuse hnamed (isSome_of_groupRead hd.required) htype).bind fun _ hr => ?_
  refine (yields_refuse hnamed (isSome_of_groupRead hd.optional) htype).bind fun _ ho => ?_
  refine (yields_refuse hnamed (isSome_of_soleRead hd.extra) htype).mono ?_ fun _ h => h
  exact fun _ he => ⟨hr, ho, he⟩

theorem yields_ofRequired {keys? : Option (List (String × Definition))}
    (hdistinct : (Json.object entries).DistinctKeys)
    (h : GroupRead (place.key Field.requiredKeys.name) (Field.requiredKeys.given? entries) keys?) :
    Yields (ofRequired (place.key Field.requiredKeys.name) keys?)
      (fun required => ∃ rs, Field.requiredKeys.group? entries = some rs ∧
        DescribesRequired rs required)
      (fun e => e.About place (.object entries)) := by
  cases hgiven : Field.requiredKeys.given? entries with
  | none =>
    rw [hgiven] at h
    have hnone : keys? = none := h
    subst hnone
    exact ⟨[], by rw [Field.group?, hgiven], .nil⟩
  | some j =>
    rw [hgiven] at h
    obtain ⟨rs, keys, rfl, rfl, hread⟩ := h
    have hparts (e : String × Json) (he : e ∈ rs) := part_of_mem hdistinct (.inl rfl) hgiven he
    refine (yields_ofRequiredKeys hparts hread).mono (fun required hrequired => ?_) fun _ h => h
    exact ⟨rs, Json.group?_of_given? hgiven, hrequired⟩

theorem yields_ofOptional {keys? : Option (List (String × Definition))} {declared : List String}
    (hdistinct : (Json.object entries).DistinctKeys)
    (htwice : ∀ os, Field.optionalKeys.given? entries = some (.object os) → ∀ e ∈ os,
      e.1 ∈ declared → (Json.object entries).Violates [.key Field.optionalKeys.name, .key e.1]
        (.declaredTwice e.1))
    (h : GroupRead (place.key Field.optionalKeys.name) (Field.optionalKeys.given? entries) keys?) :
    Yields (ofOptional (place.key Field.optionalKeys.name) declared keys?)
      (fun optional => ∃ os, Field.optionalKeys.group? entries = some os ∧
        DescribesOptional os optional ∧ ∀ k ∈ os.map Prod.fst, k ∉ declared)
      (fun e => e.About place (.object entries)) := by
  cases hgiven : Field.optionalKeys.given? entries with
  | none =>
    rw [hgiven] at h
    have hnone : keys? = none := h
    subst hnone
    exact ⟨[], by rw [Field.group?, hgiven], .nil, by simp⟩
  | some j =>
    rw [hgiven] at h
    obtain ⟨os, keys, rfl, rfl, hread⟩ := h
    have hparts (e : String × Json) (he : e ∈ os) := part_of_mem hdistinct (.inr rfl) hgiven he
    refine (yields_ofOptionalKeys hparts (htwice os hgiven) hread).mono ?_ fun _ h => h
    exact fun optional hoptional => ⟨os, Json.group?_of_given? hgiven, hoptional⟩

theorem keys_of_describesRequired {js : List (String × Json)} {required : List (String × Schema)}
    (h : DescribesRequired js required) : required.map Prod.fst = js.map Prod.fst := by
  induction js generalizing required with
  | nil =>
    cases h
    rfl
  | cons e js ih =>
    cases h with
    | cons _ _ hs => rw [List.map_cons, List.map_cons, ih hs]

theorem hasFields_of_read {d : Definition} {type : SchemaType} (hd : Read place entries d)
    (hname : d.type = type.name)
    (htaken : ∀ field : Field, field.given? entries ≠ none → type.Takes field) :
    type.HasFields (d.nullable.getD false) entries :=
  ⟨hd.known, hname ▸ hd.type, flag_of_read hd.nullable, htaken⟩

theorem yields_ofDict {d : Definition} (hdistinct : (Json.object entries).DistinctKeys)
    (hd : Read place entries d) (hname : d.type = SchemaType.dict.name) :
    Yields (ofDefinition place d) (Describes (.object entries))
      (fun e => e.About place (.object entries)) := by
  have htype : SchemaType.ofName? d.type = some .dict := SchemaType.ofName?_eq_some_iff.2 hname.symm
  have hnamed : entries.lookup Field.type.name = some (.string SchemaType.dict.name) :=
    hname ▸ hd.type
  have htakes : ¬ SchemaType.dict.Takes .elementSchema := by simp [SchemaType.Takes]
  obtain ⟨name, requiredKeys, optionalKeys, extraKeysSchema, elementSchema, nullable, default⟩ := d
  rw [ofDefinition, htype]
  refine (yields_refuse hnamed (isSome_of_soleRead hd.element) htakes).bind fun _ hnone => ?_
  refine (yields_ofRequired hdistinct hd.required).bind ?_
  rintro required ⟨rs, hrs, hrequired⟩
  have hkeys := keys_of_describesRequired hrequired
  -- an optional key is compared with the keys of the required schemas: those in the object
  have htwice (os : List (String × Json))
      (hos : Field.optionalKeys.given? entries = some (.object os)) (e : String × Json)
      (he : e ∈ os) (hdeclared : e.1 ∈ required.map Prod.fst) :
      (Json.object entries).Violates [.key Field.optionalKeys.name, .key e.1]
        (.declaredTwice e.1) := by
    rw [hkeys] at hdeclared
    have hgiven : Field.requiredKeys.given? entries = some (.object rs) :=
      Json.given?_of_group? hrs fun hnil => by simp [hnil] at hdeclared
    exact .declaredTwice hnamed hgiven hos hdeclared (List.mem_map_of_mem he)
  refine (yields_ofOptional hdistinct htwice hd.optional).bind ?_
  rintro optional ⟨os, hos, hoptional, hnew⟩
  refine (yields_ofSole (.inl rfl) hd.extra).bind fun extra hextra => ?_
  have hfields := hasFields_of_read hd hname fun field hgiven => by
    cases field with
    | elementSchema => exact absurd hnone hgiven
    | requiredKeys | optionalKeys | extraKeysSchema => exact rfl
    | type | nullable | default => exact trivial
  refine .dict hfields hrs hos hrequired hoptional (fun k hk hk' => ?_) hextra
  exact hnew k hk' (hkeys ▸ hk)

theorem yields_ofList {d : Definition} (hd : Read place entries d)
    (hname : d.type = SchemaType.list.name) :
    Yields (ofDefinition place d) (Describes (.object entries))
      (fun e => e.About place (.object entries)) := by
  have htype : SchemaType.ofName? d.type = some .list := SchemaType.ofName?_eq_some_iff.2 hname.symm
  have hnamed : entries.lookup Field.type.name = some (.string SchemaType.list.name) :=
    hname ▸ hd.type
  have hne : SchemaType.list ≠ .dict := by simp
  obtain ⟨name, requiredKeys, optionalKeys, extraKeysSchema, elementSchema, nullable, default⟩ := d
  rw [ofDefinition, htype]
  refine (yields_refuseDictFields hd hname hne).bind ?_
  rintro _ ⟨hr, ho, he⟩
  refine (yields_ofSole (.inr rfl) hd.element).bind fun element? helement => ?_
  have hfields := hasFields_of_read hd hname fun field hgiven => by
    cases field with
    | requiredKeys => exact absurd hr hgiven
    | optionalKeys => exact absurd ho hgiven
    | extraKeysSchema => exact absurd he hgiven
    | elementSchema => exact rfl
    | type | nullable | default => exact trivial
  cases element? with
  | none =>
    refine SchemaError.About.self (.elementMissing hnamed ?_)
    cases hgiven : Field.elementSchema.given? entries with
    | none => rfl
    | some part =>
      rw [hgiven] at helement
      cases helement
  | some element => exact .list hfields helement

theorem yields_ofLeaf {d : Definition} {type : LeafType} (hd : Read place entries d)
    (hname : d.type = (SchemaType.leaf type).name) :
    Yields (ofDefinition place d) (Describes (.object entries))
      (fun e => e.About place (.object entries)) := by
  have htype : SchemaType.ofName? d.type = some (.leaf type) :=
    SchemaType.ofName?_eq_some_iff.2 hname.symm
  have hnamed : entries.lookup Field.type.name = some (.string (SchemaType.leaf type).name) :=
    hname ▸ hd.type
  have hne : SchemaType.leaf type ≠ .dict := by simp
  have htakes : ¬ (SchemaType.leaf type).Takes .elementSchema := by simp [SchemaType.Takes]
  obtain ⟨name, requiredKeys, optionalKeys, extraKeysSchema, elementSchema, nullable, default⟩ := d
  rw [ofDefinition, htype]
  refine (yields_refuseDictFields hd hname hne).bind ?_
  rintro _ ⟨hr, ho, he⟩
  refine (yields_refuse hnamed (isSome_of_soleRead hd.element) htakes).bind fun _ hnone => ?_
  have hfields := hasFields_of_read hd hname fun field hgiven => by
    cases field with
    | requiredKeys => exact absurd hr hgiven
    | optionalKeys => exact absurd ho hgiven
    | extraKeysSchema => exact absurd he hgiven
    | elementSchema => exact absurd hnone hgiven
    | type | nullable | default => exact trivial
  cases type with
  | any => exact .any hfields
  | scalar type => exact .scalar hfields

/-- The schema that is made of what was read from an object is described by the object. -/
theorem yields_ofDefinition {d : Definition} (hdistinct : (Json.object entries).DistinctKeys)
    (hd : Read place entries d) :
    Yields (ofDefinition place d) (Describes (.object entries))
      (fun e => e.About place (.object entries)) := by
  cases htype : SchemaType.ofName? d.type with
  | some type =>
    have hname : d.type = type.name := (SchemaType.ofName?_eq_some_iff.1 htype).symm
    cases type with
    | dict => exact yields_ofDict hdistinct hd hname
    | list => exact yields_ofList hd hname
    | leaf type => exact yields_ofLeaf hd hname
  | none =>
    obtain ⟨name, requiredKeys, optionalKeys, extraKeysSchema, elementSchema, nullable, default⟩ := d
    rw [ofDefinition, htype]
    refine about_key (.unknownType hd.type fun type hname => ?_)
    rw [SchemaType.ofName?_eq_some_iff.2 hname] at htype
    cases htype

end

/-- A document with objects wherever definitions are expected is read as what it represents. -/
theorem reads_of_keyed {j : Json} (hkeyed : j.Keyed) (hdistinct : j.DistinctKeys) : Reads j := by
  induction hkeyed with
  | @mk j harray _ ih =>
    intro place
    cases j with
    | array items => exact absurd rfl (harray items)
    | object entries =>
      have hparts (field : Field) (steps : List Segment) (part : Json)
          (hp : (Json.object entries).Part field steps part) : Reads part :=
        ih field steps part hp (hp.distinctKeys hdistinct)
      refine (yields_read_object hparts hdistinct).mono (fun d hd => ?_) fun _ h => h
      exact ⟨hd.default, yields_ofDefinition hdistinct hd⟩
    | _ => exact SchemaError.About.self (.notObject nofun)

end Schema

theorem schemaOf_eq_ok_iff_describes {definition : Json} (hdistinct : definition.DistinctKeys)
    (hkeyed : definition.Keyed) :
    (∀ s, schemaOf definition = .ok s ↔
      Schema.Describes definition s ∧ definition.default? = none) ∧
    ∀ e, schemaOf definition = .error e → ∃ fault : SchemaError, e = .schema fault ∧
      definition.reach? fault.place.segments ≠ none ∧
      (definition.Faulty fault.place.segments fault.fault ∨
        definition.default? ≠ none ∧ fault = ⟨.root, .defaultMisplaced⟩) := by
  have hreads := Schema.reads_of_keyed hkeyed hdistinct .root
  have hschema : Yields (Schema.ofJson definition)
      (fun s => Schema.Describes definition s ∧ definition.default? = none)
      (fun e => e.About .root definition ∨
        definition.default? ≠ none ∧ e = ⟨.root, .defaultMisplaced⟩) := by
    refine (hreads.mono (fun _ h => h) fun _ h => .inl h).bind fun d hd => ?_
    have hrefuse : Yields (Schema.refuseDefault d .root) (fun _ => definition.default? = none)
        (fun e => definition.default? ≠ none ∧ e = ⟨.root, .defaultMisplaced⟩) := by
      unfold Schema.refuseDefault Schema.require
      rw [hd.1]
      cases definition.default? with
      | none => exact rfl
      | some raw => exact ⟨by simp, rfl⟩
    refine (hrefuse.mono (fun _ h => h) fun _ h => .inr h).bind fun _ hdefault => ?_
    exact hd.2.mono (fun s hs => ⟨hs, hdefault⟩) fun _ h => .inl h
  unfold schemaOf
  cases hs : Schema.ofJson definition with
  | ok s₀ =>
    obtain ⟨hdescribes, hdefault⟩ := hschema.of_eq_ok hs
    refine ⟨fun s => ⟨fun h => ?_, fun h => ?_⟩, nofun⟩
    · cases h
      exact ⟨hdescribes, hdefault⟩
    · rw [hdescribes.unique h.1]
  | error fault =>
    have hfault := hschema.of_eq_error hs
    refine ⟨fun s => ⟨nofun, fun h => ?_⟩, fun e he => ?_⟩
    · rcases hfault with ⟨steps, -, hfaulty⟩ | ⟨hdefault, -⟩
      · exact absurd h.1 (hfaulty.not_describes s)
      · exact absurd h.2 hdefault
    · cases he
      refine ⟨fault, rfl, ?_⟩
      rcases hfault with ⟨steps, hplace, hfaulty⟩ | ⟨hdefault, rfl⟩
      · have hsegments : fault.place.segments = steps := by rw [hplace]; rfl
        rw [hsegments]
        exact ⟨hfaulty.reach?_ne_none, .inl hfaulty⟩
      · exact ⟨by simp [Keypath.root, Json.reach?], .inr ⟨hdefault, rfl⟩⟩

/-- The elements of a list with a key that is both required and optional. -/
theorem faulty_of_declaredTwice :
    let port : Json := .object [("type", .string "integer"), ("nullable", .null)]
    let element : Json := .object [("optional_keys", .object [("port", port)]),
      ("type", .string "dict"), ("required_keys", .object [("port", port)])]
    let definition : Json := .object [("type", .string "list"), ("element_schema", element)]
    (∀ s, ¬ Schema.Describes definition s) ∧
      definition.Faulty [.key "element_schema", .key "optional_keys", .key "port"]
        (.declaredTwice "port") := by
  intro port element definition
  have hport : port.DistinctKeys :=
    .object (by simp) (by simp)
  have hgroup : (Json.object [("port", port)]).DistinctKeys := .object (by simp) (by simp [hport])
  have helement : element.DistinctKeys :=
    .object (by simp) (by simp [hgroup, Json.DistinctKeys.string])
  have hdistinct : definition.DistinctKeys :=
    .object (by simp) (by simp [helement, Json.DistinctKeys.string])
  have hkport : port.Keyed := by
    refine Json.keyed_object ?_ ?_
    · rintro field (rfl | rfl) part hgiven <;> cases hgiven
    · rintro field (rfl | rfl) group hgiven <;> cases hgiven
  have hkelement : element.Keyed := by
    refine Json.keyed_object ?_ ?_
    · rintro field (rfl | rfl) part hgiven <;> cases hgiven
    · rintro field (rfl | rfl) group hgiven e he <;> cases hgiven <;>
        exact List.mem_singleton.1 he ▸ hkport
  have hkeyed : definition.Keyed := by
    refine Json.keyed_object ?_ ?_
    · rintro field (rfl | rfl) part hgiven <;> cases hgiven
      exact hkelement
    · rintro field (rfl | rfl) group hgiven <;> cases hgiven
  have herror : schemaOf definition = .error (.schema
      ⟨⟨[.key "element_schema", .key "optional_keys", .key "port"]⟩, .declaredTwice "port"⟩) := by
    rfl
  obtain ⟨haccepted, hrefused⟩ := schemaOf_eq_ok_iff_describes hdistinct hkeyed
  obtain ⟨fault, hfault, -, hfaulty | ⟨-, rfl⟩⟩ := hrefused _ herror
  · cases hfault
    refine ⟨fun s hs => ?_, hfaulty⟩
    have hdefault : definition.default? = none := by decide
    rw [(haccepted s).2 ⟨hs, hdefault⟩] at herror
    cases herror
  · cases hfault

end TypedConfig

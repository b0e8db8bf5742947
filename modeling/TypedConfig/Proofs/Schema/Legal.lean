import TypedConfig.Proofs.Except
import TypedConfig.Proofs.Json.DistinctKeys
import TypedConfig.Proofs.Lookup
import TypedConfig.Proofs.Steps
import TypedConfig.Schema.Reader

/-!
# Legal definitions

`Schema.Describes` says which documents are definitions, and of which schema. `Json.Faulty` lists
what can be wrong with a document that is none, with the steps that lead there: a document with a
fault describes no schema (`Json.Faulty.not_describes`), the steps lead to something in it
(`Json.Faulty.reach?_ne_none`), and a document describes one schema at most
(`Schema.Describes.unique`).
-/

namespace TypedConfig

theorem Field.ofName?_eq_some_iff {s : String} {field : Field} :
    Field.ofName? s = some field ↔ field.name = s := by
  constructor
  · intro h
    have hname := List.find?_some h
    simpa using hname
  · rintro rfl
    cases field <;> decide

theorem Field.ofName?_eq_none_iff {s : String} :
    Field.ofName? s = none ↔ ∀ field : Field, field.name ≠ s := by
  constructor
  · intro h field hname
    rw [ofName?_eq_some_iff.2 hname] at h
    cases h
  · intro h
    cases hs : Field.ofName? s with
    | none => rfl
    | some field => exact absurd (ofName?_eq_some_iff.1 hs) (h field)

theorem Field.name_injective {field field' : Field} (h : field.name = field'.name) :
    field = field' := by
  have hfield := ofName?_eq_some_iff.2 h
  rw [ofName?_eq_some_iff.2 (rfl : field'.name = field'.name)] at hfield
  exact (Option.some.inj hfield).symm

theorem SchemaType.ofName?_eq_some_iff {s : String} {type : SchemaType} :
    SchemaType.ofName? s = some type ↔ type.name = s := by
  constructor
  · intro h
    unfold SchemaType.ofName? at h
    by_cases hdict : s = "dict"
    · rw [if_pos hdict] at h
      cases h
      exact hdict.symm
    · rw [if_neg hdict] at h
      by_cases hlist : s = "list"
      · rw [if_pos hlist] at h
        cases h
        exact hlist.symm
      · rw [if_neg hlist] at h
        obtain ⟨leaf, hleaf, rfl⟩ := Option.map_eq_some_iff.1 h
        have hname := List.find?_some hleaf
        simpa [SchemaType.name] using hname
  · rintro rfl
    cases type with
    | dict => decide
    | list => decide
    | leaf type =>
      cases type with
      | any => decide
      | scalar type => cases type <;> decide

theorem SchemaType.name_injective {type type' : SchemaType} (h : type.name = type'.name) :
    type = type' := by
  have htype := ofName?_eq_some_iff.2 h
  rw [ofName?_eq_some_iff.2 (rfl : type'.name = type'.name)] at htype
  exact (Option.some.inj htype).symm

/-! ### Fields -/

/-- The document, unless it is null. -/
def Json.nonNull? : Json → Option Json
  | .null => none
  | j => some j

/-- The document that is given for a field; null is as good as none. -/
def Field.given? (field : Field) (entries : List (String × Json)) : Option Json :=
  (entries.lookup field.name).bind Json.nonNull?

/-- The keys that are given for a field, each with its definition. -/
def Field.group? (field : Field) (entries : List (String × Json)) :
    Option (List (String × Json)) :=
  match field.given? entries with
  | none => some []
  | some (.object group) => some group
  | some _ => none

/-- The default in a definition; an explicit null is one. -/
def Json.default? : Json → Option Json
  | .object entries => entries.lookup Field.default.name
  | _ => none

/-- Whether a field goes with a type. -/
def SchemaType.Takes (type : SchemaType) : Field → Prop
  | .requiredKeys | .optionalKeys | .extraKeysSchema => type = .dict
  | .elementSchema => type = .list
  | .type | .nullable | .default => True

/-- There are known fields only, with the name of the type, a flag, and no field that does not go
with the type. -/
structure SchemaType.HasFields (type : SchemaType) (nullable : Bool)
    (entries : List (String × Json)) : Prop where
  known : ∀ e ∈ entries, ∃ field : Field, field.name = e.1
  named : entries.lookup Field.type.name = some (.string type.name)
  flag : Field.nullable.given? entries = none ∧ nullable = false ∨
    Field.nullable.given? entries = some (.bool nullable)
  taken : ∀ field : Field, field.given? entries ≠ none → type.Takes field

theorem SchemaType.HasFields.unique {type type' : SchemaType} {nullable nullable' : Bool}
    {entries : List (String × Json)} (h : type.HasFields nullable entries)
    (h' : type'.HasFields nullable' entries) : type = type' ∧ nullable = nullable' := by
  constructor
  · have hname := h.named.symm.trans h'.named
    simp only [Option.some.injEq, Json.string.injEq] at hname
    exact name_injective hname
  · rcases h.flag with ⟨hnone, rfl⟩ | hsome
    · rcases h'.flag with ⟨-, rfl⟩ | hsome'
      · rfl
      · rw [hnone] at hsome'
        cases hsome'
    · rcases h'.flag with ⟨hnone', -⟩ | hsome'
      · rw [hsome] at hnone'
        cases hnone'
      · rw [hsome] at hsome'
        cases hsome'
        rfl

theorem Json.nonNull?_of_ne {j : Json} (h : j ≠ .null) : j.nonNull? = some j := by
  cases j with
  | null => exact absurd rfl h
  | _ => rfl

theorem Field.given?_eq_nonNull? {field : Field} {entries : List (String × Json)} {j : Json}
    (h : entries.lookup field.name = some j) : field.given? entries = j.nonNull? := by
  rw [given?, h, Option.bind_some]

theorem Field.lookup_of_given? {field : Field} {entries : List (String × Json)} {j : Json}
    (h : field.given? entries = some j) : entries.lookup field.name = some j := by
  obtain ⟨j', hlookup, hj⟩ := Option.bind_eq_some_iff.1 h
  cases j' with
  | null => cases hj
  | _ =>
    cases hj
    exact hlookup

/-! ### Definitions -/

namespace Schema

mutual

/-- The document is a definition of the schema. -/
inductive Describes : Json → Schema → Prop
  | scalar {entries : List (String × Json)} {type : ScalarType} {nullable : Bool}
      (hfields : (SchemaType.leaf (.scalar type)).HasFields nullable entries) :
      Describes (.object entries) (.scalar type nullable)
  | any {entries : List (String × Json)} {nullable : Bool}
      (hfields : (SchemaType.leaf .any).HasFields nullable entries) :
      Describes (.object entries) .any
  | list {entries : List (String × Json)} {element : Schema} {nullable : Bool}
      (hfields : SchemaType.list.HasFields nullable entries)
      (helement : DescribesSole (Field.elementSchema.given? entries) (some element)) :
      Describes (.object entries) (.list element nullable)
  | dict {entries rs os : List (String × Json)} {required : List (String × Schema)}
      {optional : List (String × Schema × Option Value)} {extra : Option Schema} {nullable : Bool}
      (hfields : SchemaType.dict.HasFields nullable entries)
      (hrs : Field.requiredKeys.group? entries = some rs)
      (hos : Field.optionalKeys.group? entries = some os)
      (hrequired : DescribesRequired rs required) (hoptional : DescribesOptional os optional)
      (hdisjoint : ∀ k ∈ rs.map Prod.fst, k ∉ os.map Prod.fst)
      (hextra : DescribesSole (Field.extraKeysSchema.given? entries) extra) :
      Describes (.object entries) (.dict required optional extra nullable)

/-- The documents are definitions without default of the schemas of keys. -/
inductive DescribesRequired : List (String × Json) → List (String × Schema) → Prop
  | nil : DescribesRequired [] []
  | cons {k : String} {j : Json} {js : List (String × Json)} {schema : Schema}
      {required : List (String × Schema)} (h : Describes j schema) (hdefault : j.default? = none)
      (hs : DescribesRequired js required) :
      DescribesRequired ((k, j) :: js) ((k, schema) :: required)

/-- The documents are definitions of the schemas of keys, with defaults that fit them. -/
inductive DescribesOptional :
    List (String × Json) → List (String × Schema × Option Value) → Prop
  | nil : DescribesOptional [] []
  | cons {k : String} {j : Json} {js : List (String × Json)} {schema : Schema}
      {default : Option Value} {optional : List (String × Schema × Option Value)}
      (h : Describes j schema) (hdefault : j.default?.mapM (defaultValue schema) = .ok default)
      (hs : DescribesOptional js optional) :
      DescribesOptional ((k, j) :: js) ((k, schema, default) :: optional)

/-- The document, if there is one, is a definition without default of the schema. -/
inductive DescribesSole : Option Json → Option Schema → Prop
  | none : DescribesSole none none
  | some {j : Json} {schema : Schema} (h : Describes j schema) (hdefault : j.default? = none) :
    DescribesSole (some j) (some schema)

end

mutual

theorem Describes.unique {j : Json} : ∀ {s s' : Schema}, Describes j s → Describes j s' → s = s'
  | _, _, .scalar h, .scalar h' => by
    obtain ⟨htype, rfl⟩ := h.unique h'
    cases htype
    rfl
  | _, _, .any _, .any _ => rfl
  | _, _, .list h helement, .list h' helement' => by
    obtain ⟨-, rfl⟩ := h.unique h'
    cases helement.unique helement'
    rfl
  | _, _, .dict h hrs hos hrequired hoptional _ hextra,
      .dict h' hrs' hos' hrequired' hoptional' _ hextra' => by
    obtain ⟨-, rfl⟩ := h.unique h'
    cases hrs.symm.trans hrs'
    cases hos.symm.trans hos'
    rw [hrequired.unique hrequired', hoptional.unique hoptional', hextra.unique hextra']
  | _, _, .scalar h, .any h' => nomatch (h.unique h').1
  | _, _, .scalar h, .list h' _ => nomatch (h.unique h').1
  | _, _, .scalar h, .dict h' .. => nomatch (h.unique h').1
  | _, _, .any h, .scalar h' => nomatch (h.unique h').1
  | _, _, .any h, .list h' _ => nomatch (h.unique h').1
  | _, _, .any h, .dict h' .. => nomatch (h.unique h').1
  | _, _, .list h _, .scalar h' => nomatch (h.unique h').1
  | _, _, .list h _, .any h' => nomatch (h.unique h').1
  | _, _, .list h _, .dict h' .. => nomatch (h.unique h').1
  | _, _, .dict h .., .scalar h' => nomatch (h.unique h').1
  | _, _, .dict h .., .any h' => nomatch (h.unique h').1
  | _, _, .dict h .., .list h' _ => nomatch (h.unique h').1

theorem DescribesRequired.unique {js : List (String × Json)} :
    ∀ {ss ss' : List (String × Schema)}, DescribesRequired js ss → DescribesRequired js ss' →
      ss = ss'
  | _, _, .nil, .nil => rfl
  | _, _, .cons h _ hs, .cons h' _ hs' => by rw [h.unique h', hs.unique hs']

theorem DescribesOptional.unique {js : List (String × Json)} :
    ∀ {ss ss' : List (String × Schema × Option Value)}, DescribesOptional js ss →
      DescribesOptional js ss' → ss = ss'
  | _, _, .nil, .nil => rfl
  | _, _, .cons h hdefault hs, .cons h' hdefault' hs' => by
    cases h.unique h'
    cases hdefault.symm.trans hdefault'
    rw [hs.unique hs']

theorem DescribesSole.unique {j? : Option Json} :
    ∀ {s? s?' : Option Schema}, DescribesSole j? s? → DescribesSole j? s?' → s? = s?'
  | _, _, .none, .none => rfl
  | _, _, .some h _, .some h' _ => by rw [h.unique h']

end

theorem DescribesRequired.of_mem {js : List (String × Json)} {required : List (String × Schema)}
    (h : DescribesRequired js required) {e : String × Json} (he : e ∈ js) :
    ∃ s, Describes e.2 s ∧ e.2.default? = Option.none := by
  induction js generalizing required with
  | nil => cases he
  | cons e' js ih =>
    cases h with
    | cons h hdefault hs =>
      rcases List.mem_cons.1 he with rfl | he
      · exact ⟨_, h, hdefault⟩
      · exact ih hs he

theorem DescribesOptional.of_mem {js : List (String × Json)}
    {optional : List (String × Schema × Option Value)} (h : DescribesOptional js optional)
    {e : String × Json} (he : e ∈ js) :
    ∃ s default, Describes e.2 s ∧ e.2.default?.mapM (defaultValue s) = .ok default := by
  induction js generalizing optional with
  | nil => cases he
  | cons e' js ih =>
    cases h with
    | cons h hdefault hs =>
      rcases List.mem_cons.1 he with rfl | he
      · exact ⟨_, _, h, hdefault⟩
      · exact ih hs he

end Schema

/-! ### Parts and faults -/

namespace Json

/-- A document that stands where a definition is expected, in a field of another definition. -/
inductive Part : Json → Field → List Segment → Json → Prop
  | sole {entries : List (String × Json)} {field : Field} {part : Json}
      (hfield : field = .extraKeysSchema ∨ field = .elementSchema)
      (h : field.given? entries = some part) :
      Part (.object entries) field [.key field.name] part
  | keyed {entries group : List (String × Json)} {field : Field} {k : String} {part : Json}
      (hfield : field = .requiredKeys ∨ field = .optionalKeys)
      (h : field.given? entries = some (.object group)) (hk : group.lookup k = some part) :
      Part (.object entries) field [.key field.name, .key k] part

/-- No array stands where a definition is expected. -/
inductive Keyed : Json → Prop
  | mk {j : Json} (harray : ∀ items, j ≠ .array items)
      (hparts : ∀ field steps part, j.Part field steps part → Keyed part) : Keyed j

theorem keyed_object {entries : List (String × Json)}
    (hsole : ∀ field : Field, field = .extraKeysSchema ∨ field = .elementSchema →
      ∀ part, field.given? entries = some part → part.Keyed)
    (hgroup : ∀ field : Field, field = .requiredKeys ∨ field = .optionalKeys →
      ∀ group, field.given? entries = some (.object group) → ∀ e ∈ group, e.2.Keyed) :
    (object entries).Keyed := by
  refine .mk nofun fun field steps part hp => ?_
  cases hp with
  | sole hfield hgiven => exact hsole field hfield part hgiven
  | keyed hfield hgiven hk => exact hgroup field hfield _ hgiven _ (mem_of_lookup hk)

/-- A rule for definitions that the document breaks, with the steps to what breaks it. -/
inductive Violates : Json → List Segment → SchemaFault → Prop
  | notObject {j : Json} (hj : j.kind ≠ .dict) : Violates j [] (.wrongData j .definition)
  | unknownField {entries : List (String × Json)} {k : String} (hk : k ∈ entries.map Prod.fst)
      (hname : ∀ field : Field, field.name ≠ k) :
      Violates (.object entries) [.key k] (.unknownField k)
  | typeMissing {entries : List (String × Json)}
      (h : entries.lookup Field.type.name = none) : Violates (.object entries) [] .typeMissing
  | typeData {entries : List (String × Json)} {j : Json}
      (h : entries.lookup Field.type.name = some j) (hj : j.kind ≠ .string) :
      Violates (.object entries) [.key Field.type.name] (.wrongData j .text)
  | flagData {entries : List (String × Json)} {j : Json}
      (h : Field.nullable.given? entries = some j) (hj : j.kind ≠ .boolean) :
      Violates (.object entries) [.key Field.nullable.name] (.wrongData j .boolean)
  | groupData {entries : List (String × Json)} {field : Field} {j : Json}
      (hfield : field = .requiredKeys ∨ field = .optionalKeys)
      (h : field.given? entries = some j) (hj : j.kind ≠ .dict) :
      Violates (.object entries) [.key field.name] (.wrongData j .mapping)
  | unknownType {entries : List (String × Json)} {name : String}
      (h : entries.lookup Field.type.name = some (.string name))
      (hname : ∀ type : SchemaType, type.name ≠ name) :
      Violates (.object entries) [.key Field.type.name] (.unknownType name)
  | fieldMisplaced {entries : List (String × Json)} {type : SchemaType} {field : Field}
      (h : entries.lookup Field.type.name = some (.string type.name))
      (hgiven : field.given? entries ≠ none) (hfield : ¬ type.Takes field) :
      Violates (.object entries) [.key field.name] (.fieldMisplaced field type)
  | elementMissing {entries : List (String × Json)}
      (h : entries.lookup Field.type.name = some (.string SchemaType.list.name))
      (hnone : Field.elementSchema.given? entries = none) :
      Violates (.object entries) [] .elementMissing
  | declaredTwice {entries rs os : List (String × Json)} {k : String}
      (htype : entries.lookup Field.type.name = some (.string SchemaType.dict.name))
      (hrs : Field.requiredKeys.given? entries = some (.object rs))
      (hos : Field.optionalKeys.given? entries = some (.object os))
      (hk : k ∈ rs.map Prod.fst) (hk' : k ∈ os.map Prod.fst) :
      Violates (.object entries) [.key Field.optionalKeys.name, .key k] (.declaredTwice k)
  | defaultMisplaced {j part : Json} {field : Field} {steps : List Segment}
      (h : j.Part field steps part) (hfield : field ≠ .optionalKeys)
      (hdefault : part.default? ≠ none) : Violates j steps .defaultMisplaced
  | defaultUnfit {j part raw : Json} {steps : List Segment} {schema : Schema}
      {fault : SchemaFault} (h : j.Part .optionalKeys steps part)
      (hschema : Schema.Describes part schema) (hraw : part.default? = some raw)
      (hdefault : Schema.defaultValue schema raw = .error fault) :
      Violates j (steps ++ [.key Field.default.name]) fault

/-- A rule that the document breaks, or a definition in it. -/
inductive Faulty : Json → List Segment → SchemaFault → Prop
  | here {j : Json} {steps : List Segment} {fault : SchemaFault} (h : j.Violates steps fault) :
    Faulty j steps fault
  | inside {j part : Json} {field : Field} {steps steps' : List Segment} {fault : SchemaFault}
      (hpart : j.Part field steps part) (h : Faulty part steps' fault) :
      Faulty j (steps ++ steps') fault

theorem takes_of_part {type : SchemaType} {nullable : Bool}
    {entries : List (String × Json)} {field : Field} {steps : List Segment} {part : Json}
    (h : type.HasFields nullable entries) (hp : (object entries).Part field steps part) :
    type.Takes field := by
  refine h.taken field fun hnone => ?_
  cases hp with
  | sole _ hgiven =>
    rw [hnone] at hgiven
    cases hgiven
  | keyed _ hgiven _ =>
    rw [hnone] at hgiven
    cases hgiven

theorem given?_of_group? {entries group : List (String × Json)} {field : Field}
    (h : field.group? entries = some group) (hne : group ≠ []) :
    field.given? entries = some (.object group) := by
  unfold Field.group? at h
  split at h
  · cases h
    exact absurd rfl hne
  · next hgiven =>
    cases h
    exact hgiven
  · cases h

theorem group?_of_given? {entries group : List (String × Json)} {field : Field}
    (h : field.given? entries = some (.object group)) : field.group? entries = some group := by
  rw [Field.group?, h]

theorem Part.distinctKeys {j part : Json} {field : Field} {steps : List Segment}
    (hp : j.Part field steps part) (h : j.DistinctKeys) : part.DistinctKeys := by
  cases h with
  | object _ hentries =>
    cases hp with
    | sole _ hgiven => exact hentries _ (mem_of_lookup (Field.lookup_of_given? hgiven))
    | keyed _ hgiven hk =>
      cases hentries _ (mem_of_lookup (Field.lookup_of_given? hgiven)) with
      | object _ hgroup => exact hgroup _ (mem_of_lookup hk)
  | _ => cases hp

/-- A part of a definition is a definition; only those of optional keys have a default, which fits
the schema. -/
theorem Part.describes {j part : Json} {field : Field} {steps : List Segment} {s : Schema}
    (hp : j.Part field steps part) (h : Schema.Describes j s) :
    ∃ s', Schema.Describes part s' ∧ (field ≠ .optionalKeys → part.default? = none) ∧
      (field = .optionalKeys →
        ∃ default, part.default?.mapM (Schema.defaultValue s') = .ok default) := by
  cases h with
  | scalar hfields =>
    have htakes := takes_of_part hfields hp
    cases hp with
    | sole hfield => rcases hfield with rfl | rfl <;> cases htakes
    | keyed hfield => rcases hfield with rfl | rfl <;> cases htakes
  | any hfields =>
    have htakes := takes_of_part hfields hp
    cases hp with
    | sole hfield => rcases hfield with rfl | rfl <;> cases htakes
    | keyed hfield => rcases hfield with rfl | rfl <;> cases htakes
  | list hfields helement =>
    have htakes := takes_of_part hfields hp
    cases hp with
    | keyed hfield => rcases hfield with rfl | rfl <;> cases htakes
    | sole hfield hgiven =>
      rcases hfield with rfl | rfl
      · cases htakes
      · rw [hgiven] at helement
        cases helement with
        | some h hdefault => exact ⟨_, h, fun _ => hdefault, nofun⟩
  | dict hfields hrs hos hrequired hoptional _ hextra =>
    have htakes := takes_of_part hfields hp
    cases hp with
    | sole hfield hgiven =>
      rcases hfield with rfl | rfl
      · rw [hgiven] at hextra
        cases hextra with
        | some h hdefault => exact ⟨_, h, fun _ => hdefault, nofun⟩
      · cases htakes
    | keyed hfield hgiven hk =>
      have hgroup := group?_of_given? hgiven
      rcases hfield with rfl | rfl
      · cases hrs.symm.trans hgroup
        obtain ⟨s', hs', hdefault⟩ := hrequired.of_mem (mem_of_lookup hk)
        exact ⟨s', hs', fun _ => hdefault, nofun⟩
      · cases hos.symm.trans hgroup
        obtain ⟨s', default, hs', hdefault⟩ := hoptional.of_mem (mem_of_lookup hk)
        exact ⟨s', hs', fun hne => absurd rfl hne, fun _ => ⟨default, hdefault⟩⟩

/-- What all definitions have in common. -/
theorem hasFields_of_describes {j : Json} {s : Schema} (h : Schema.Describes j s) :
    ∃ entries nullable, j = .object entries ∧ s.type.HasFields nullable entries := by
  cases h with
  | scalar hfields => exact ⟨_, _, rfl, hfields⟩
  | any hfields => exact ⟨_, _, rfl, hfields⟩
  | list hfields _ => exact ⟨_, _, rfl, hfields⟩
  | dict hfields => exact ⟨_, _, rfl, hfields⟩

theorem Violates.not_describes {j : Json} {steps : List Segment} {fault : SchemaFault}
    (hv : j.Violates steps fault) (s : Schema) : ¬ Schema.Describes j s := by
  intro h
  obtain ⟨entries, nullable, rfl, hfields⟩ := hasFields_of_describes h
  cases hv with
  | notObject hj => exact hj rfl
  | unknownField hk hname =>
    obtain ⟨e, he, rfl⟩ := List.mem_map.1 hk
    obtain ⟨field, hfield⟩ := hfields.known e he
    exact hname field hfield
  | typeMissing hnone =>
    rw [hfields.named] at hnone
    cases hnone
  | typeData hj hkind =>
    rw [hfields.named] at hj
    cases hj
    exact hkind rfl
  | flagData hj hkind =>
    rcases hfields.flag with ⟨hnone, -⟩ | hsome
    · rw [hnone] at hj
      cases hj
    · rw [hsome] at hj
      cases hj
      exact hkind rfl
  | @groupData _ field j hfield hj hkind =>
    have htakes : s.type.Takes field := hfields.taken field (by rw [hj]; simp)
    have hgroup : ∃ group, field.group? entries = some group := by
      cases h with
      | dict _ hrs hos =>
        rcases hfield with rfl | rfl
        · exact ⟨_, hrs⟩
        · exact ⟨_, hos⟩
      | _ => rcases hfield with rfl | rfl <;> cases htakes
    obtain ⟨group, hgroup⟩ := hgroup
    rw [Field.group?, hj] at hgroup
    cases j with
    | object => exact hkind rfl
    | _ => cases hgroup
  | unknownType hname hall =>
    rw [hfields.named] at hname
    simp only [Option.some.injEq, string.injEq] at hname
    exact hall _ hname
  | fieldMisplaced hname hgiven hfield =>
    rw [hfields.named] at hname
    simp only [Option.some.injEq, string.injEq] at hname
    rw [← SchemaType.name_injective hname] at hfield
    exact hfield (hfields.taken _ hgiven)
  | elementMissing hname hnone =>
    rw [hfields.named] at hname
    simp only [Option.some.injEq, string.injEq] at hname
    have htype : s.type = .list := SchemaType.name_injective hname
    cases h with
    | list _ helement =>
      rw [hnone] at helement
      cases helement
    | _ => cases htype
  | declaredTwice hname hrs hos hk hk' =>
    rw [hfields.named] at hname
    simp only [Option.some.injEq, string.injEq] at hname
    have htype : s.type = .dict := SchemaType.name_injective hname
    cases h with
    | dict _ hrs' hos' _ _ hdisjoint _ =>
      cases (group?_of_given? hrs).symm.trans hrs'
      cases (group?_of_given? hos).symm.trans hos'
      exact hdisjoint _ hk hk'
    | _ => cases htype
  | defaultMisplaced hp hfield hdefault =>
    obtain ⟨s', -, hnone, -⟩ := hp.describes h
    exact hdefault (hnone hfield)
  | defaultUnfit hp hschema hraw hdefault =>
    obtain ⟨s', hs', -, hfits⟩ := hp.describes h
    obtain ⟨default, hfit⟩ := hfits rfl
    cases hschema.unique hs'
    rw [hraw] at hfit
    obtain ⟨v, hv, -⟩ := bind_eq_ok.1 hfit
    rw [hdefault] at hv
    cases hv

theorem Faulty.not_describes {j : Json} {steps : List Segment} {fault : SchemaFault}
    (hf : j.Faulty steps fault) (s : Schema) : ¬ Schema.Describes j s := by
  induction hf generalizing s with
  | here h => exact h.not_describes s
  | inside hp _ ih =>
    intro h
    obtain ⟨s', hs', -⟩ := hp.describes h
    exact ih s' hs'

/-! ### Where faults are -/

theorem Part.reach? {j part : Json} {field : Field} {steps : List Segment}
    (h : j.Part field steps part) : j.reach? steps = some part := by
  cases h with
  | sole _ hgiven =>
    have hlookup := Field.lookup_of_given? hgiven
    simp [Json.reach?, step?, hlookup]
  | keyed _ hgiven hk =>
    have hlookup := Field.lookup_of_given? hgiven
    simp [Json.reach?, step?, hlookup, hk]

theorem reach?_key {entries : List (String × Json)} {k : String} (h : entries.lookup k ≠ none) :
    (object entries).reach? [.key k] ≠ none := by
  obtain ⟨j, hj⟩ := Option.ne_none_iff_exists'.1 h
  simp [reach?, step?, hj]

theorem reach?_default {j raw : Json} (h : j.default? = some raw) :
    j.reach? [.key Field.default.name] ≠ none := by
  cases j with
  | object entries =>
    have hlookup : entries.lookup Field.default.name = some raw := h
    exact reach?_key (by simp [hlookup])
  | _ => cases h

theorem Violates.reach?_ne_none {j : Json} {steps : List Segment} {fault : SchemaFault}
    (h : j.Violates steps fault) : j.reach? steps ≠ none := by
  cases h with
  | notObject => simp [reach?]
  | typeMissing => simp [reach?]
  | elementMissing => simp [reach?]
  | unknownField hk =>
    exact reach?_key fun hnone => lookup_eq_none_iff_not_mem.1 hnone hk
  | typeData h => exact reach?_key (by simp [h])
  | unknownType h => exact reach?_key (by simp [h])
  | flagData h => exact reach?_key (by simp [Field.lookup_of_given? h])
  | groupData _ h => exact reach?_key (by simp [Field.lookup_of_given? h])
  | fieldMisplaced _ hgiven =>
    obtain ⟨j, hj⟩ := Option.ne_none_iff_exists'.1 hgiven
    exact reach?_key (by simp [Field.lookup_of_given? hj])
  | declaredTwice _ _ hos _ hk' =>
    obtain ⟨e, he⟩ := Option.ne_none_iff_exists'.1 fun hnone =>
      lookup_eq_none_iff_not_mem.1 hnone hk'
    simp [reach?, step?, Field.lookup_of_given? hos, he]
  | defaultMisplaced hp => simp [hp.reach?]
  | defaultUnfit hp _ hraw =>
    rw [reach?_append, hp.reach?, Option.bind_some]
    exact reach?_default hraw

theorem Faulty.reach?_ne_none {j : Json} {steps : List Segment} {fault : SchemaFault}
    (h : j.Faulty steps fault) : j.reach? steps ≠ none := by
  induction h with
  | here h => exact h.reach?_ne_none
  | inside hp _ ih =>
    rw [reach?_append, hp.reach?]
    exact ih

end Json
end TypedConfig

import Mathlib.Data.List.Forall2
import TypedConfig.Proofs.Json.DistinctKeys
import TypedConfig.Proofs.Schema.Legal

/-!
# Reading definitions

A document is read as a definition field by field. What has been read for a field is what stands
there (`Definition.Read`), and an error is about something in the document that is not as it should
be (`SchemaError.About`).
-/

namespace TypedConfig

/-- The error is about a fault in a document at a place. -/
def SchemaError.About (e : SchemaError) (place : Keypath) (j : Json) : Prop :=
  ∃ steps, e.place = place.follow steps ∧ j.Faulty steps e.fault

namespace SchemaError.About

variable {place : Keypath} {j part : Json}

theorem here {steps : List Segment} {fault : SchemaFault} (h : j.Violates steps fault) :
    (SchemaError.mk (place.follow steps) fault).About place j :=
  ⟨steps, rfl, .here h⟩

theorem self {fault : SchemaFault} (h : j.Violates [] fault) :
    (SchemaError.mk place fault).About place j :=
  ⟨[], (place.follow_nil).symm, .here h⟩

theorem inside {e : SchemaError} {field : Field} {steps : List Segment}
    (hp : j.Part field steps part) (h : e.About (place.follow steps) part) : e.About place j := by
  obtain ⟨steps', hplace, hfaulty⟩ := h
  exact ⟨steps ++ steps', by rw [hplace, Keypath.follow_append], .inside hp hfaulty⟩

end SchemaError.About

namespace Definition

/-- The definition has the default of the document, and a schema is made of it if and only if the
document describes this schema. -/
def Represents (place : Keypath) (j : Json) (d : Definition) : Prop :=
  d.default = j.default? ∧
    Yields (Schema.ofDefinition place d) (Schema.Describes j) (fun e => e.About place j)

/-- Wherever it stands, the document is read as what it represents, or has a fault. -/
def Reads (j : Json) : Prop :=
  ∀ place, Yields (read place j) (Represents place j) (fun e => e.About place j)

/-- The definitions were read from the entries of an object, in order. -/
def KeysRead (group : Keypath) (entries : List (String × Json))
    (keys : List (String × Definition)) : Prop :=
  List.Forall₂ (fun e d => e.1 = d.1 ∧ Represents (group.key e.1) e.2 d.2) entries keys

/-- What a field of a draft holds. -/
def FieldData : Field → Type
  | .type => Option String
  | .requiredKeys | .optionalKeys => Option (List (String × Definition))
  | .extraKeysSchema | .elementSchema => Option Definition
  | .nullable => Option Bool
  | .default => Option Json

/-- The data of a field. -/
def Draft.get (d : Draft) : (field : Field) → FieldData field
  | .type => d.type
  | .requiredKeys => d.requiredKeys
  | .optionalKeys => d.optionalKeys
  | .extraKeysSchema => d.extraKeysSchema
  | .elementSchema => d.elementSchema
  | .nullable => d.nullable
  | .default => d.default

/-- The keys were read from what is given for a field at a place, if anything is. -/
def GroupRead (place : Keypath) : Option Json → Option (List (String × Definition)) → Prop
  | none, keys? => keys? = none
  | some j, keys? =>
    ∃ group keys, j = .object group ∧ keys? = some keys ∧ KeysRead place group keys

/-- The definition was read from what is given for a field at a place, if anything is. -/
def SoleRead (place : Keypath) : Option Json → Option Definition → Prop
  | none, d? => d? = none
  | some j, d? => ∃ d, d? = some d ∧ Represents place j d

/-- The flag was read from what is given for it, if anything is. -/
def FlagRead : Option Json → Option Bool → Prop
  | none, b? => b? = none
  | some j, b? => ∃ b, j = .bool b ∧ b? = some b

/-- The data were read for a field from a document at a place. -/
def FieldRead (place : Keypath) (j : Json) : (field : Field) → FieldData field → Prop
  | .type, s? => ∃ s, j = .string s ∧ s? = some s
  | .requiredKeys, keys? => GroupRead place j.nonNull? keys?
  | .optionalKeys, keys? => GroupRead place j.nonNull? keys?
  | .extraKeysSchema, d? => SoleRead place j.nonNull? d?
  | .elementSchema, d? => SoleRead place j.nonNull? d?
  | .nullable, b? => FlagRead j.nonNull? b?
  | .default, j? => j? = some j

theorem yields_readKeys {group : Keypath} {entries : List (String × Json)}
    (hreads : ∀ e ∈ entries, Reads e.2) :
    Yields (readKeys group entries) (KeysRead group entries)
      (fun err => ∃ e ∈ entries, err.About (group.key e.1) e.2) := by
  induction entries with
  | nil => exact .nil
  | cons e entries ih =>
    obtain ⟨k, j⟩ := e
    obtain ⟨hj, hrest⟩ := List.forall_mem_cons.1 hreads
    rw [readKeys]
    have hhead : Yields (read (group.key k) j) (Represents (group.key k) j)
        (fun err => ∃ e ∈ (k, j) :: entries, err.About (group.key e.1) e.2) :=
      (hj (group.key k)).mono (fun _ h => h) fun err h => ⟨(k, j), List.mem_cons_self .., h⟩
    have htail : Yields (readKeys group entries) (KeysRead group entries)
        (fun err => ∃ e ∈ (k, j) :: entries, err.About (group.key e.1) e.2) := by
      refine (ih hrest).mono (fun _ h => h) ?_
      rintro err ⟨e, he, h⟩
      exact ⟨e, List.mem_cons_of_mem _ he, h⟩
    exact hhead.bind fun d hd => htail.bind fun keys hkeys => .cons ⟨rfl, hd⟩ hkeys

theorem part_of_mem {entries group : List (String × Json)} {field : Field} {e : String × Json}
    (hdistinct : (Json.object entries).DistinctKeys)
    (hfield : field = .requiredKeys ∨ field = .optionalKeys)
    (hgiven : field.given? entries = some (.object group)) (he : e ∈ group) :
    (Json.object entries).Part field [.key field.name, .key e.1] e.2 := by
  have hlookup := Field.lookup_of_given? hgiven
  cases hdistinct with
  | object _ hentries =>
    cases hentries _ (mem_of_lookup hlookup) with
    | object hkeys _ => exact .keyed hfield hgiven ((lookup_eq_some_iff_mem hkeys).2 he)

/-- A violation at a key, as an error there. -/
theorem about_key {place : Keypath} {j : Json} {k : String} {fault : SchemaFault}
    (h : j.Violates [.key k] fault) : (SchemaError.mk (place.key k) fault).About place j :=
  .here h

section
variable {place : Keypath} {entries : List (String × Json)}
  (hparts : ∀ field steps part, (Json.object entries).Part field steps part → Reads part)
include hparts

theorem yields_readOptional {field : Field} {j : Json}
    (hfield : field = .extraKeysSchema ∨ field = .elementSchema)
    (hj : entries.lookup field.name = some j) :
    Yields (readOptional (fun _ => read (place.key field.name) j) j)
      (SoleRead (place.key field.name) j.nonNull?) (fun e => e.About place (.object entries)) := by
  by_cases hnull : j = .null
  · subst hnull
    exact rfl
  · have hgiven := Json.nonNull?_of_ne hnull
    have hpart : (Json.object entries).Part field [.key field.name] j :=
      .sole hfield ((Field.given?_eq_nonNull? hj).trans hgiven)
    have hread : Yields (read (place.key field.name) j) (Represents (place.key field.name) j)
        (fun e => e.About place (.object entries)) := by
      exact (hparts _ _ _ hpart (place.key field.name)).mono (fun _ h => h) fun e h => .inside hpart h
    unfold readOptional
    split
    · exact absurd rfl hnull
    · rw [hgiven]
      exact hread.bind fun d hd => ⟨d, rfl, hd⟩

variable (hdistinct : (Json.object entries).DistinctKeys)
include hdistinct

theorem yields_readGroup {field : Field} {j : Json}
    (hfield : field = .requiredKeys ∨ field = .optionalKeys)
    (hj : entries.lookup field.name = some j) :
    Yields (readGroup (place.key field.name) j) (GroupRead (place.key field.name) j.nonNull?)
      (fun e => e.About place (.object entries)) := by
  have hgiven := Field.given?_eq_nonNull? hj
  cases j with
  | null => exact rfl
  | object group =>
    have hpart (e : String × Json) (he : e ∈ group) :
        (Json.object entries).Part field [.key field.name, .key e.1] e.2 :=
      part_of_mem hdistinct hfield hgiven he
    have hkeys := @yields_readKeys (place.key field.name) group
      fun e he => hparts _ _ _ (hpart e he)
    rw [readGroup]
    refine (hkeys.mono (fun _ h => h) ?_).bind fun keys hread => ⟨group, keys, rfl, rfl, hread⟩
    rintro err ⟨e, he, h⟩
    refine .inside (hpart e he) ?_
    rwa [Keypath.follow_key_key]
  | _ => exact about_key (.groupData hfield hgiven nofun)

/-- A field is read from what stands there, and the others stay as they are. -/
theorem yields_readField {draft : Draft} {field : Field} {j : Json}
    (hj : entries.lookup field.name = some j) :
    Yields (readField (place.key field.name) draft field j
        (fun _ => read (place.key field.name) j) (fun _ => readGroup (place.key field.name) j))
      (fun draft' => FieldRead (place.key field.name) j field (draft'.get field) ∧
        ∀ field', field' ≠ field → draft'.get field' = draft.get field')
      (fun e => e.About place (.object entries)) := by
  cases field with
  | type =>
    have hread : Yields (readText (place.key Field.type.name) j) (fun s => j = .string s)
        (fun e => e.About place (.object entries)) := by
      cases j with
      | string s => exact rfl
      | _ => exact about_key (.typeData hj nofun)
    refine hread.bind fun s hs => ⟨⟨s, hs, rfl⟩, fun field' hne => ?_⟩
    cases field' <;> first | rfl | exact absurd rfl hne
  | requiredKeys =>
    refine (yields_readGroup hparts hdistinct (.inl rfl) hj).bind fun keys? hread =>
      ⟨hread, fun field' hne => ?_⟩
    cases field' <;> first | rfl | exact absurd rfl hne
  | optionalKeys =>
    refine (yields_readGroup hparts hdistinct (.inr rfl) hj).bind fun keys? hread =>
      ⟨hread, fun field' hne => ?_⟩
    cases field' <;> first | rfl | exact absurd rfl hne
  | extraKeysSchema =>
    refine (yields_readOptional hparts (.inl rfl) hj).bind fun d? hread =>
      ⟨hread, fun field' hne => ?_⟩
    cases field' <;> first | rfl | exact absurd rfl hne
  | elementSchema =>
    refine (yields_readOptional hparts (.inr rfl) hj).bind fun d? hread =>
      ⟨hread, fun field' hne => ?_⟩
    cases field' <;> first | rfl | exact absurd rfl hne
  | nullable =>
    have hread : Yields (readFlag (place.key Field.nullable.name) j)
        (FlagRead j.nonNull?) (fun e => e.About place (.object entries)) := by
      have hgiven := Field.given?_eq_nonNull? hj
      cases j with
      | null => exact rfl
      | bool b => exact ⟨b, rfl, rfl⟩
      | _ => exact about_key (.flagData hgiven nofun)
    refine hread.bind fun b? hb => ⟨hb, fun field' hne => ?_⟩
    cases field' <;> first | rfl | exact absurd rfl hne
  | default =>
    refine ⟨rfl, fun field' hne => ?_⟩
    cases field' <;> first | rfl | exact absurd rfl hne

/-- Each field is read from what stands there, if anything does. -/
theorem yields_readEntries {draft : Draft} {rest : List (String × Json)}
    (hkeys : (rest.map Prod.fst).Nodup) (hrest : ∀ e ∈ rest, entries.lookup e.1 = some e.2) :
    Yields (readEntries place draft rest)
      (fun draft' => (∀ e ∈ rest, ∃ field : Field, field.name = e.1) ∧
        ∀ field : Field, (rest.lookup field.name = none ∧ draft'.get field = draft.get field) ∨
          ∃ j, rest.lookup field.name = some j ∧
            FieldRead (place.key field.name) j field (draft'.get field))
      (fun e => e.About place (.object entries)) := by
  induction rest generalizing draft with
  | nil => exact ⟨by simp, fun field => .inl ⟨rfl, rfl⟩⟩
  | cons e rest ih =>
    obtain ⟨k, j⟩ := e
    obtain ⟨hj, hmore⟩ := List.forall_mem_cons.1 hrest
    rw [List.map_cons, List.nodup_cons] at hkeys
    rw [readEntries]
    cases hk : Field.ofName? k with
    | none =>
      have hmem : k ∈ entries.map Prod.fst := List.mem_map_of_mem (mem_of_lookup hj)
      exact about_key (.unknownField hmem (Field.ofName?_eq_none_iff.1 hk))
    | some field =>
      obtain rfl : field.name = k := Field.ofName?_eq_some_iff.1 hk
      refine (yields_readField hparts hdistinct hj).bind fun draft₁ h₁ => ?_
      refine (ih hkeys.2 hmore).mono ?_ fun _ h => h
      rintro draft' ⟨hknown, hfields⟩
      refine ⟨List.forall_mem_cons.2 ⟨⟨field, rfl⟩, hknown⟩, fun field' => ?_⟩
      by_cases hfield : field' = field
      · subst hfield
        -- the key does not come again, so that what has been read for it stays
        have hnone : rest.lookup field'.name = none := lookup_eq_none_iff_not_mem.2 hkeys.1
        rcases hfields field' with ⟨-, hget⟩ | ⟨j', hj', -⟩
        · refine .inr ⟨j, List.lookup_cons_self, ?_⟩
          rw [hget]
          exact h₁.1
        · rw [hnone] at hj'
          cases hj'
      · have hname : field'.name ≠ field.name := fun h => hfield (Field.name_injective h)
        rw [List.lookup_cons, beq_false_of_ne hname]
        rcases hfields field' with ⟨hnone, hget⟩ | hread
        · exact .inl ⟨hnone, hget.trans (h₁.2 field' hfield)⟩
        · exact .inr hread

end

/-- The fields of a definition were read from the entries of an object. -/
structure Read (place : Keypath) (entries : List (String × Json)) (d : Definition) : Prop where
  known : ∀ e ∈ entries, ∃ field : Field, field.name = e.1
  type : entries.lookup Field.type.name = some (.string d.type)
  required : GroupRead (place.key Field.requiredKeys.name) (Field.requiredKeys.given? entries)
    d.requiredKeys
  optional : GroupRead (place.key Field.optionalKeys.name) (Field.optionalKeys.given? entries)
    d.optionalKeys
  extra : SoleRead (place.key Field.extraKeysSchema.name) (Field.extraKeysSchema.given? entries)
    d.extraKeysSchema
  element : SoleRead (place.key Field.elementSchema.name) (Field.elementSchema.given? entries)
    d.elementSchema
  nullable : FlagRead (Field.nullable.given? entries) d.nullable
  default : d.default = entries.lookup Field.default.name

theorem yields_read_object {place : Keypath} {entries : List (String × Json)}
    (hparts : ∀ field steps part, (Json.object entries).Part field steps part → Reads part)
    (hdistinct : (Json.object entries).DistinctKeys) :
    Yields (read place (.object entries)) (Read place entries)
      (fun e => e.About place (.object entries)) := by
  have hkeys : (entries.map Prod.fst).Nodup := by
    cases hdistinct with
    | object hkeys _ => exact hkeys
  rw [read]
  refine (yields_readEntries hparts hdistinct hkeys fun e he =>
    (lookup_eq_some_iff_mem hkeys).2 he).bind ?_
  rintro draft ⟨hknown, hfields⟩
  -- what was read for a field is what was read for the document that is given for it
  have hgiven {field : Field} {P : Option Json → FieldData field → Prop}
      (hnone : P none (Draft.empty.get field))
      (hsome : ∀ j, FieldRead (place.key field.name) j field (draft.get field) →
        P j.nonNull? (draft.get field)) : P (field.given? entries) (draft.get field) := by
    rcases hfields field with ⟨hlookup, hget⟩ | ⟨j, hj, hread⟩
    · rw [hget, Field.given?, hlookup]
      exact hnone
    · rw [Field.given?_eq_nonNull? hj]
      exact hsome j hread
  rcases hfields .type with ⟨hlookup, hget⟩ | ⟨j, hj, s, rfl, hs⟩
  · have htype : draft.type = none := hget
    unfold Draft.finish
    rw [htype]
    exact .self (.typeMissing hlookup)
  · have htype : draft.type = some s := hs
    unfold Draft.finish
    rw [htype]
    refine ⟨hknown, hj, @hgiven .requiredKeys (GroupRead _) rfl fun _ h => h,
      @hgiven .optionalKeys (GroupRead _) rfl fun _ h => h,
      @hgiven .extraKeysSchema (SoleRead _) rfl fun _ h => h,
      @hgiven .elementSchema (SoleRead _) rfl fun _ h => h,
      @hgiven .nullable FlagRead rfl fun _ h => h, ?_⟩
    rcases hfields .default with ⟨hlookup, hget⟩ | ⟨j, hj, hread⟩
    · rw [hlookup]
      exact hget
    · rw [hj]
      exact hread

end Definition
end TypedConfig

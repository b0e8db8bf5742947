import TypedConfig.Proofs.Except
import TypedConfig.Proofs.Json.DistinctKeys
import TypedConfig.Schema.Reader

/-!
# Distinct keys in schemas

A definition without repeated keys is read into groups without repeated keys
(`Definition.distinctKeys_ofJson`), and no key is in both groups of a schema, so that each key of an
accepted schema is declared once (`Schema.Accepted.distinctKeys`). A default is kept as a document
until it is read for the schema that it stands with (`Schema.Accepted.wellFormed`).
-/

namespace TypedConfig

/-! ### Definitions -/

/-- No key occurs twice in a group of a definition or in a default. -/
inductive Definition.DistinctKeys : Definition → Prop
  | mk {d : Definition}
      (required_nodup : ∀ ks, d.requiredKeys = some ks → (ks.map Prod.fst).Nodup)
      (required : ∀ ks, d.requiredKeys = some ks → ∀ e ∈ ks, DistinctKeys e.2)
      (optional_nodup : ∀ ks, d.optionalKeys = some ks → (ks.map Prod.fst).Nodup)
      (optional : ∀ ks, d.optionalKeys = some ks → ∀ e ∈ ks, DistinctKeys e.2)
      (extra : ∀ d', d.extraKeysSchema = some d' → DistinctKeys d')
      (element : ∀ d', d.elementSchema = some d' → DistinctKeys d')
      (default : ∀ j, d.default = some j → j.DistinctKeys) : DistinctKeys d

namespace Definition

theorem DistinctKeys.of_default {d : Definition} (h : d.DistinctKeys) :
    ∀ j, d.default = some j → j.DistinctKeys := by
  cases h with
  | mk _ _ _ _ _ _ default => exact default

/-- A group of keys without repetitions. -/
def GroupDistinct (ks : List (String × Definition)) : Prop :=
  (ks.map Prod.fst).Nodup ∧ ∀ e ∈ ks, e.2.DistinctKeys

/-- No key occurs twice in what has been read so far. -/
structure Draft.DistinctKeys (d : Draft) : Prop where
  required : ∀ ks, d.requiredKeys = some ks → GroupDistinct ks
  optional : ∀ ks, d.optionalKeys = some ks → GroupDistinct ks
  extra : ∀ d', d.extraKeysSchema = some d' → d'.DistinctKeys
  element : ∀ d', d.elementSchema = some d' → d'.DistinctKeys
  default : ∀ j, d.default = some j → j.DistinctKeys

/-- As it is, or read as a definition or as a group, a document gives no repeated keys. -/
structure ReadsDistinct (j : Json) : Prop where
  document : j.DistinctKeys
  definition : ∀ place d, read place j = .ok d → d.DistinctKeys
  group : ∀ place ks, readGroup place j = .ok (some ks) → GroupDistinct ks

theorem Draft.DistinctKeys.finish {place : Keypath} {draft : Draft} {d : Definition}
    (h : draft.DistinctKeys) (hd : draft.finish place = .ok d) : d.DistinctKeys := by
  unfold Draft.finish at hd
  split at hd
  · cases hd
  · cases hd
    exact ⟨fun ks hks => (h.required ks hks).1, fun ks hks => (h.required ks hks).2,
      fun ks hks => (h.optional ks hks).1, fun ks hks => (h.optional ks hks).2, h.extra, h.element,
      h.default⟩

theorem Draft.distinctKeys_empty : Draft.empty.DistinctKeys :=
  ⟨by simp [empty], by simp [empty], by simp [empty], by simp [empty], by simp [empty]⟩

theorem readOptional_eq_ok {j : Json} {definition : Unit → Except SchemaError Definition}
    {d : Definition} (h : readOptional definition j = .ok (some d)) : definition () = .ok d := by
  unfold readOptional at h
  split at h
  · cases h
  · obtain ⟨d', hd, h⟩ := bind_eq_ok.1 h
    cases h
    exact hd

theorem Draft.DistinctKeys.readField {draft draft' : Draft} {place : Keypath} {field : Field}
    {j : Json} (h : draft.DistinctKeys) (hj : ReadsDistinct j)
    (hd : readField place draft field j (fun _ => read place j) (fun _ => readGroup place j) =
      .ok draft') : draft'.DistinctKeys := by
  cases field with
  | default =>
    cases hd
    refine ⟨h.required, h.optional, h.extra, h.element, fun j' hj' => ?_⟩
    cases hj'
    exact hj.document
  | type | nullable =>
    obtain ⟨s, -, hd⟩ := bind_eq_ok.1 hd
    cases hd
    exact ⟨h.required, h.optional, h.extra, h.element, h.default⟩
  | requiredKeys =>
    obtain ⟨g, hg, hd⟩ := bind_eq_ok.1 hd
    cases hd
    exact ⟨fun ks hks => hj.group place ks (hg.trans (congrArg _ hks)), h.optional, h.extra,
      h.element, h.default⟩
  | optionalKeys =>
    obtain ⟨g, hg, hd⟩ := bind_eq_ok.1 hd
    cases hd
    exact ⟨h.required, fun ks hks => hj.group place ks (hg.trans (congrArg _ hks)), h.extra,
      h.element, h.default⟩
  | extraKeysSchema =>
    obtain ⟨g, hg, hd⟩ := bind_eq_ok.1 hd
    cases hd
    refine ⟨h.required, h.optional, fun d' hd' => ?_, h.element, h.default⟩
    exact hj.definition place d' (readOptional_eq_ok (hg.trans (congrArg _ hd')))
  | elementSchema =>
    obtain ⟨g, hg, hd⟩ := bind_eq_ok.1 hd
    cases hd
    refine ⟨h.required, h.optional, h.extra, fun d' hd' => ?_, h.default⟩
    exact hj.definition place d' (readOptional_eq_ok (hg.trans (congrArg _ hd')))

theorem Draft.DistinctKeys.readEntries {draft draft' : Draft} {place : Keypath}
    {entries : List (String × Json)} (h : draft.DistinctKeys)
    (hj : ∀ e ∈ entries, ReadsDistinct e.2) (hd : readEntries place draft entries = .ok draft') :
    draft'.DistinctKeys := by
  induction entries generalizing draft with
  | nil => cases hd; exact h
  | cons e entries ih =>
    obtain ⟨k, j⟩ := e
    rw [Definition.readEntries] at hd
    split at hd
    · cases hd
    · obtain ⟨draft₁, h₁, hd⟩ := bind_eq_ok.1 hd
      obtain ⟨hj₁, hj⟩ := List.forall_mem_cons.1 hj
      exact ih (h.readField hj₁ h₁) hj hd

theorem Draft.DistinctKeys.readItems {draft draft' : Draft} {place : Keypath} {position : Nat}
    {fields : List Field} {items : List Json} (h : draft.DistinctKeys)
    (hj : ∀ j ∈ items, ReadsDistinct j)
    (hd : readItems place position draft fields items = .ok draft') : draft'.DistinctKeys := by
  induction items generalizing draft position fields with
  | nil => cases hd; exact h
  | cons j items ih =>
    cases fields with
    | nil => cases hd; exact h
    | cons field fields =>
      obtain ⟨draft₁, h₁, hd⟩ := bind_eq_ok.1 hd
      obtain ⟨hj₁, hj⟩ := List.forall_mem_cons.1 hj
      exact ih (h.readField hj₁ h₁) hj hd

theorem readKeys_eq_ok {place : Keypath} {entries : List (String × Json)}
    {ks : List (String × Definition)} (hj : ∀ e ∈ entries, ReadsDistinct e.2)
    (h : readKeys place entries = .ok ks) :
    ks.map Prod.fst = entries.map Prod.fst ∧ ∀ e ∈ ks, e.2.DistinctKeys := by
  induction entries generalizing ks with
  | nil => cases h; simp
  | cons e entries ih =>
    obtain ⟨k, j⟩ := e
    obtain ⟨d, hd, h⟩ := bind_eq_ok.1 h
    obtain ⟨ks', hks, h⟩ := bind_eq_ok.1 h
    cases h
    obtain ⟨hj₁, hj⟩ := List.forall_mem_cons.1 hj
    obtain ⟨hmap, hall⟩ := ih hj hks
    exact ⟨by simp [hmap], List.forall_mem_cons.2 ⟨hj₁.definition _ d hd, hall⟩⟩

theorem readsDistinct {j : Json} (h : j.DistinctKeys) : ReadsDistinct j := by
  induction h with
  | null => exact ⟨.null, fun _ _ h => by simp [read] at h, fun _ _ h => by simp [readGroup] at h⟩
  | bool b =>
    exact ⟨.bool b, fun _ _ h => by simp [read] at h, fun _ _ h => by simp [readGroup] at h⟩
  | number n =>
    exact ⟨.number n, fun _ _ h => by simp [read] at h, fun _ _ h => by simp [readGroup] at h⟩
  | string s =>
    exact ⟨.string s, fun _ _ h => by simp [read] at h, fun _ _ h => by simp [readGroup] at h⟩
  | array hitems ih =>
    refine ⟨.array hitems, fun place d h => ?_, fun _ _ h => by simp [readGroup] at h⟩
    rw [read] at h
    split at h
    · obtain ⟨_, hthrow, -⟩ := bind_eq_ok.1 h
      cases hthrow
    obtain ⟨draft, hdraft, h⟩ := bind_eq_ok.1 h
    split at h
    · obtain ⟨_, hthrow, -⟩ := bind_eq_ok.1 h
      cases hthrow
    exact (Draft.distinctKeys_empty.readItems ih hdraft).finish h
  | object hkeys hentries ih =>
    refine ⟨.object hkeys hentries, fun place d h => ?_, fun place ks h => ?_⟩
    · rw [read] at h
      obtain ⟨draft, hdraft, h⟩ := bind_eq_ok.1 h
      exact (Draft.distinctKeys_empty.readEntries ih hdraft).finish h
    · rw [readGroup] at h
      obtain ⟨ks', hks, h⟩ := bind_eq_ok.1 h
      cases h
      obtain ⟨hmap, hall⟩ := readKeys_eq_ok ih hks
      exact ⟨hmap ▸ hkeys, hall⟩

/-- A document without repeated keys is read into a definition without repeated keys. -/
theorem distinctKeys_ofJson {j : Json} {d : Definition} (hj : j.DistinctKeys)
    (h : ofJson j = .ok d) : d.DistinctKeys :=
  (readsDistinct hj).definition .root d h

end Definition

/-! ### Schemas -/

/-- Each key of a schema is declared once. -/
inductive Schema.DistinctKeys : Schema → Prop
  | dict {required : List (String × Schema)} {optional : List (String × Schema × Option Value)}
      {extra : Option Schema} {nullable : Bool}
      (nodup : (required.map Prod.fst ++ optional.map Prod.fst).Nodup)
      (hrequired : ∀ e ∈ required, DistinctKeys e.2)
      (hoptional : ∀ e ∈ optional, DistinctKeys e.2.1)
      (hextra : ∀ s, extra = some s → DistinctKeys s) :
      DistinctKeys (.dict required optional extra nullable)
  | list {element : Schema} {nullable : Bool} (helement : DistinctKeys element) :
      DistinctKeys (.list element nullable)
  | scalar (type : ScalarType) (nullable : Bool) : DistinctKeys (.scalar type nullable)
  | any : DistinctKeys .any

namespace Schema

/-- A value is read for a schema from a document without repeated keys. -/
def HasDefault (schema : Schema) (v : Value) : Prop :=
  ∃ j : Json, j.DistinctKeys ∧ defaultValue schema j = .ok v

end Schema

/-- Each key of a schema is declared once, and each default is read for its schema. -/
inductive Schema.WellFormed : Schema → Prop
  | dict {required : List (String × Schema)} {optional : List (String × Schema × Option Value)}
      {extra : Option Schema} {nullable : Bool}
      (nodup : (required.map Prod.fst ++ optional.map Prod.fst).Nodup)
      (hrequired : ∀ e ∈ required, WellFormed e.2)
      (hoptional : ∀ e ∈ optional, WellFormed e.2.1)
      (hdefault : ∀ e ∈ optional, ∀ v, e.2.2 = some v → e.2.1.HasDefault v)
      (hextra : ∀ s, extra = some s → WellFormed s) :
      WellFormed (.dict required optional extra nullable)
  | list {element : Schema} {nullable : Bool} (helement : WellFormed element) :
      WellFormed (.list element nullable)
  | scalar (type : ScalarType) (nullable : Bool) : WellFormed (.scalar type nullable)
  | any : WellFormed .any

namespace Schema

theorem WellFormed.distinctKeys {s : Schema} (h : s.WellFormed) : s.DistinctKeys := by
  induction h with
  | dict nodup _ _ _ _ hrequired hoptional hextra => exact .dict nodup hrequired hoptional hextra
  | list _ ih => exact .list ih
  | scalar type nullable => exact .scalar type nullable
  | any => exact .any

/-- What a definition is read as is well-formed. -/
def DescribesWellFormed (d : Definition) : Prop :=
  ∀ place s, ofDefinition place d = .ok s → s.WellFormed

theorem ofRequiredKeys_eq_ok {group : Keypath} {keys : List (String × Definition)}
    {required : List (String × Schema)} (hd : ∀ e ∈ keys, DescribesWellFormed e.2)
    (h : ofRequiredKeys group keys = .ok required) :
    required.map Prod.fst = keys.map Prod.fst ∧ ∀ e ∈ required, e.2.WellFormed := by
  induction keys generalizing required with
  | nil => cases h; simp
  | cons e keys ih =>
    obtain ⟨k, d⟩ := e
    obtain ⟨-, -, h⟩ := bind_eq_ok.1 h
    obtain ⟨s, hs, h⟩ := bind_eq_ok.1 h
    obtain ⟨rest, hrest, h⟩ := bind_eq_ok.1 h
    cases h
    obtain ⟨hd₁, hd⟩ := List.forall_mem_cons.1 hd
    obtain ⟨hmap, hall⟩ := ih hd hrest
    exact ⟨by simp [hmap], List.forall_mem_cons.2 ⟨hd₁ _ s hs, hall⟩⟩

theorem eq_ok_of_located {α : Type} {place : Keypath} {x : Except SchemaFault α} {a : α}
    (h : located place x = .ok a) : x = .ok a := by
  cases x with
  | ok => cases h; rfl
  | error => cases h

theorem hasDefault_of_mapM {default? : Option Json} {place : Keypath} {s : Schema}
    {default : Option Value} (hj : ∀ j, default? = some j → j.DistinctKeys)
    (h : (default?.mapM fun raw => located place (defaultValue s raw)) = .ok default) :
    ∀ v, default = some v → s.HasDefault v := by
  rintro v rfl
  cases default? with
  | none => cases h
  | some j =>
    obtain ⟨w, hw, h⟩ := bind_eq_ok.1 h
    cases h
    exact ⟨j, hj j rfl, eq_ok_of_located hw⟩

theorem ofOptionalKeys_eq_ok {group : Keypath} {declared : List String}
    {keys : List (String × Definition)} {optional : List (String × Schema × Option Value)}
    (hd : ∀ e ∈ keys, DescribesWellFormed e.2)
    (hj : ∀ e ∈ keys, ∀ j, e.2.default = some j → j.DistinctKeys)
    (h : ofOptionalKeys group declared keys = .ok optional) :
    optional.map Prod.fst = keys.map Prod.fst ∧ (∀ e ∈ optional, e.1 ∉ declared) ∧
      (∀ e ∈ optional, e.2.1.WellFormed) ∧
      ∀ e ∈ optional, ∀ v, e.2.2 = some v → e.2.1.HasDefault v := by
  induction keys generalizing optional with
  | nil => cases h; simp
  | cons e keys ih =>
    obtain ⟨k, d⟩ := e
    obtain ⟨_, hk, h⟩ := bind_eq_ok.1 h
    obtain ⟨s, hs, h⟩ := bind_eq_ok.1 h
    obtain ⟨default, hdefault, h⟩ := bind_eq_ok.1 h
    obtain ⟨rest, hrest, h⟩ := bind_eq_ok.1 h
    cases h
    have hk : k ∉ declared := by
      intro hmem
      simp [require, hmem] at hk
    obtain ⟨hd₁, hd⟩ := List.forall_mem_cons.1 hd
    obtain ⟨hj₁, hj⟩ := List.forall_mem_cons.1 hj
    obtain ⟨hmap, hnew, hall, hdefaults⟩ := ih hd hj hrest
    exact ⟨by simp [hmap], List.forall_mem_cons.2 ⟨hk, hnew⟩,
      List.forall_mem_cons.2 ⟨hd₁ _ s hs, hall⟩,
      List.forall_mem_cons.2 ⟨hasDefault_of_mapM hj₁ hdefault, hdefaults⟩⟩

theorem ofSole_eq_ok {place : Keypath} {d? : Option Definition} {s : Schema}
    (hd : ∀ d, d? = some d → DescribesWellFormed d) (h : ofSole place d? = .ok (some s)) :
    s.WellFormed := by
  cases d? with
  | none => cases h
  | some d =>
    obtain ⟨-, -, h⟩ := bind_eq_ok.1 h
    obtain ⟨s', hs, h⟩ := bind_eq_ok.1 h
    cases h
    exact hd d rfl place s hs

theorem describesWellFormed {d : Definition} (h : d.DistinctKeys) : DescribesWellFormed d := by
  induction h with
  | @mk d required_nodup _ optional_nodup hoptional _ _ _ required optional extra element =>
    obtain ⟨type, requiredKeys, optionalKeys, extraKeysSchema, elementSchema, nullable, default⟩ := d
    intro place s hs
    rw [ofDefinition] at hs
    split at hs
    · cases hs
    · -- a dict: the optional keys are checked against the required ones
      obtain ⟨-, -, hs⟩ := bind_eq_ok.1 hs
      obtain ⟨req, hreq, hs⟩ := bind_eq_ok.1 hs
      obtain ⟨opt, hopt, hs⟩ := bind_eq_ok.1 hs
      obtain ⟨ext, hext, hs⟩ := bind_eq_ok.1 hs
      cases hs
      have hreq : (req.map Prod.fst).Nodup ∧ ∀ e ∈ req, e.2.WellFormed := by
        cases requiredKeys with
        | none => cases hreq; simp
        | some ks =>
          obtain ⟨hmap, hall⟩ := ofRequiredKeys_eq_ok (required ks rfl) hreq
          exact ⟨hmap ▸ required_nodup ks rfl, hall⟩
      have hopt : (opt.map Prod.fst).Nodup ∧ (∀ e ∈ opt, e.1 ∉ req.map Prod.fst) ∧
          (∀ e ∈ opt, e.2.1.WellFormed) ∧
          ∀ e ∈ opt, ∀ v, e.2.2 = some v → e.2.1.HasDefault v := by
        cases optionalKeys with
        | none => cases hopt; simp
        | some ks =>
          obtain ⟨hmap, hopt⟩ := ofOptionalKeys_eq_ok (optional ks rfl)
            (fun e he => (hoptional ks rfl e he).of_default) hopt
          exact ⟨hmap ▸ optional_nodup ks rfl, hopt⟩
      obtain ⟨hnodup, hnew, hall, hdefaults⟩ := hopt
      refine .dict (List.nodup_append.2 ⟨hreq.1, hnodup, ?_⟩) hreq.2 hall hdefaults ?_
      · rintro a ha b hb rfl
        obtain ⟨e, he, rfl⟩ := List.mem_map.1 hb
        exact hnew e he ha
      · rintro s rfl
        exact ofSole_eq_ok extra hext
    · obtain ⟨-, -, hs⟩ := bind_eq_ok.1 hs
      obtain ⟨el, hel, hs⟩ := bind_eq_ok.1 hs
      cases el with
      | none => cases hs
      | some el =>
        cases hs
        exact .list (ofSole_eq_ok element hel)
    · obtain ⟨-, -, hs⟩ := bind_eq_ok.1 hs
      obtain ⟨-, -, hs⟩ := bind_eq_ok.1 hs
      split at hs <;> cases hs
      · exact .any
      · exact .scalar _ _

/-- Schemas that come from a document. -/
def Accepted (s : Schema) : Prop := ∃ j : Json, j.DistinctKeys ∧ ofJson j = .ok s

theorem Accepted.wellFormed {s : Schema} (h : s.Accepted) : s.WellFormed := by
  obtain ⟨j, hj, h⟩ := h
  obtain ⟨d, hd, h⟩ := bind_eq_ok.1 h
  obtain ⟨-, -, h⟩ := bind_eq_ok.1 h
  exact describesWellFormed (Definition.distinctKeys_ofJson hj hd) _ s h

theorem Accepted.distinctKeys {s : Schema} (h : s.Accepted) : s.DistinctKeys :=
  h.wellFormed.distinctKeys

end Schema
end TypedConfig

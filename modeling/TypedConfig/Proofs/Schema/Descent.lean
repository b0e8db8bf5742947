import Mathlib.Data.Option.Basic
import TypedConfig.Proofs.Lookup
import TypedConfig.Proofs.Schema.DistinctKeys
import TypedConfig.Proofs.Steps

/-!
# Parts of documents and schemas

What steps lead to in a document or in a schema is as well-formed as the whole, and a default that
is declared there (`Schema.DefaultAt`) was read for the schema that it stands with. Steps lead to all
schemas that are declared on the way (`Schema.DeclaredAt`); with distinct keys this is one schema at
most (`Schema.DistinctKeys.descend?_eq`).
-/

namespace TypedConfig

namespace Json.DistinctKeys

variable {j part : Json} {s : Segment} {steps : List Segment}

/-- Each entry of an object is what its key leads to. -/
theorem step?_key {entries : List (String × Json)} (h : (Json.object entries).DistinctKeys)
    {e : String × Json} (he : e ∈ entries) : (Json.object entries).step? (.key e.1) = some e.2 := by
  cases h with
  | object hkeys => exact (lookup_eq_some_iff_mem hkeys).2 he

theorem of_step? (h : j.DistinctKeys) (hj : j.step? s = some part) : part.DistinctKeys := by
  cases h with
  | array hitems =>
    cases s with
    | key k => cases hj
    | index i => exact hitems part (List.mem_of_getElem? hj)
  | object _ hentries =>
    cases s with
    | key k => exact hentries _ (mem_of_lookup hj)
    | index i => cases hj
  | _ => cases s <;> cases hj

theorem of_reach? (h : j.DistinctKeys) (hj : j.reach? steps = some part) : part.DistinctKeys := by
  induction steps generalizing j with
  | nil =>
    cases hj
    exact h
  | cons s steps ih =>
    obtain ⟨child, hchild, hj⟩ := Option.bind_eq_some_iff.1 hj
    exact ih (h.of_step? hchild) hj

end Json.DistinctKeys

namespace Schema

variable {schema child sub : Schema} {s : Segment} {steps : List Segment} {d : Value}

section
variable {required : List (String × Schema)} {optional : List (String × Schema × Option Value)}
  {extra : Option Schema} {nullable : Bool}

theorem child?_required (nodup : (required.map Prod.fst ++ optional.map Prod.fst).Nodup)
    {e : String × Schema} (he : e ∈ required) :
    (dict required optional extra nullable).child? (.key e.1) = some e.2 := by
  have hlookup : required.lookup e.1 = some e.2 :=
    (lookup_eq_some_iff_mem (List.nodup_append.1 nodup).1).2 he
  simp [child?, hlookup]

theorem child?_optional (nodup : (required.map Prod.fst ++ optional.map Prod.fst).Nodup)
    {e : String × Schema × Option Value} (he : e ∈ optional) :
    (dict required optional extra nullable).child? (.key e.1) = some e.2.1 := by
  obtain ⟨-, hoptional, hne⟩ := List.nodup_append.1 nodup
  have hnone : required.lookup e.1 = none := by
    refine lookup_eq_none_iff_not_mem.2 fun hmem => ?_
    exact hne _ hmem _ (List.mem_map_of_mem he) rfl
  have hlookup : optional.lookup e.1 = some e.2 := (lookup_eq_some_iff_mem hoptional).2 he
  simp [child?, hnone, hlookup]

theorem child?_undeclared {k : String}
    (hk : k ∉ required.map Prod.fst ++ optional.map Prod.fst) :
    (dict required optional extra nullable).child? (.key k) = extra := by
  rw [List.mem_append, not_or] at hk
  simp [child?, lookup_eq_none_iff_not_mem.2 hk.1, lookup_eq_none_iff_not_mem.2 hk.2]

end

theorem descend?_cons (hs : schema.child? s = some child) (steps : List Segment) :
    schema.descend? (s :: steps) = child.descend? steps := by
  rw [descend?, hs, Option.bind_some]

/-! ### Declared schemas -/

/-- A schema that one step leads to: the schema of a key that is required, or optional, or else not
declared. -/
inductive IsChild : Schema → Segment → Schema → Prop
  | required {required : List (String × Schema)} {optional : List (String × Schema × Option Value)}
      {extra : Option Schema} {nullable : Bool} {k : String} {sub : Schema}
      (h : (k, sub) ∈ required) : IsChild (.dict required optional extra nullable) (.key k) sub
  | optional {required : List (String × Schema)} {optional : List (String × Schema × Option Value)}
      {extra : Option Schema} {nullable : Bool} {k : String} {sub : Schema} {default : Option Value}
      (h : (k, sub, default) ∈ optional) :
      IsChild (.dict required optional extra nullable) (.key k) sub
  | extra {required : List (String × Schema)} {optional : List (String × Schema × Option Value)}
      {nullable : Bool} {k : String} {sub : Schema}
      (hk : k ∉ required.map Prod.fst ++ optional.map Prod.fst) :
      IsChild (.dict required optional (some sub) nullable) (.key k) sub
  | element (element : Schema) (nullable : Bool) (i : Nat) :
      IsChild (.list element nullable) (.index i) element
  | any (s : Segment) : IsChild .any s .any

/-- A schema that steps lead to, one at a time. -/
inductive DeclaredAt : Schema → List Segment → Schema → Prop
  | self (schema : Schema) : DeclaredAt schema [] schema
  | step {schema child sub : Schema} {s : Segment} {steps : List Segment}
      (hs : schema.IsChild s child) (h : DeclaredAt child steps sub) :
      DeclaredAt schema (s :: steps) sub

theorem isChild_of_child? (h : schema.child? s = some sub) : schema.IsChild s sub := by
  cases schema with
  | dict required optional extra nullable =>
    cases s with
    | index i => cases h
    | key k =>
      simp only [child?, Option.orElse_eq_some, Option.map_eq_some_iff, Option.map_eq_none_iff] at h
      rcases h with h | ⟨hr, ⟨e, he, rfl⟩ | ⟨ho, rfl⟩⟩
      · exact .required (mem_of_lookup h)
      · exact .optional (mem_of_lookup he)
      · refine .extra fun hmem => ?_
        rcases List.mem_append.1 hmem with hmem | hmem
        · exact lookup_eq_none_iff_not_mem.1 hr hmem
        · exact lookup_eq_none_iff_not_mem.1 ho hmem
  | list element nullable =>
    cases s with
    | key k => cases h
    | index i =>
      cases h
      exact .element ..
  | scalar => cases s <;> cases h
  | any =>
    cases s <;>
    · cases h
      exact .any _

theorem declaredAt_of_descend? (h : schema.descend? steps = some sub) :
    schema.DeclaredAt steps sub := by
  induction steps generalizing schema with
  | nil =>
    cases h
    exact .self _
  | cons s steps ih =>
    obtain ⟨child, hchild, h⟩ := Option.bind_eq_some_iff.1 h
    exact .step (isChild_of_child? hchild) (ih h)

/-- What holds of a schema holds of the schemas it is made of. -/
structure Inherited (P : Schema → Prop) : Prop where
  dict : ∀ {required optional extra nullable}, P (.dict required optional extra nullable) →
    (∀ e ∈ required, P e.2) ∧ (∀ e ∈ optional, P e.2.1) ∧ ∀ s, extra = some s → P s
  list : ∀ {element nullable}, P (.list element nullable) → P element

namespace Inherited

variable {P : Schema → Prop} (hP : Inherited P)
include hP

theorem of_isChild (h : P schema) (hs : schema.IsChild s sub) : P sub := by
  cases hs with
  | required hmem => exact (hP.dict h).1 _ hmem
  | optional hmem => exact (hP.dict h).2.1 _ hmem
  | extra => exact (hP.dict h).2.2 _ rfl
  | element => exact hP.list h
  | any => exact h

theorem of_declaredAt (h : P schema) (hs : schema.DeclaredAt steps sub) : P sub := by
  induction hs with
  | self => exact h
  | step hchild _ ih => exact ih (hP.of_isChild h hchild)

theorem of_child? (h : P schema) (hs : schema.child? s = some sub) : P sub :=
  hP.of_isChild h (isChild_of_child? hs)

theorem of_descend? (h : P schema) (hs : schema.descend? steps = some sub) : P sub :=
  hP.of_declaredAt h (declaredAt_of_descend? hs)

end Inherited

theorem inherited_distinctKeys : Inherited DistinctKeys where
  dict h := by
    cases h with
    | dict _ hrequired hoptional hextra => exact ⟨hrequired, hoptional, hextra⟩
  list h := by
    cases h with
    | list helement => exact helement

theorem inherited_wellFormed : Inherited WellFormed where
  dict h := by
    cases h with
    | dict _ hrequired hoptional _ hextra => exact ⟨hrequired, hoptional, hextra⟩
  list h := by
    cases h with
    | list helement => exact helement

/-- A key is declared once, so that a step leads to one schema at most. -/
theorem DistinctKeys.child?_eq (h : schema.DistinctKeys) (hs : schema.IsChild s sub) :
    schema.child? s = some sub := by
  cases hs with
  | required hmem =>
    cases h with
    | dict nodup => exact child?_required nodup hmem
  | optional hmem =>
    cases h with
    | dict nodup => exact child?_optional nodup hmem
  | extra hk => exact child?_undeclared hk
  | element => rfl
  | any => cases s <;> rfl

theorem DistinctKeys.descend?_eq (h : schema.DistinctKeys) (hs : schema.DeclaredAt steps sub) :
    schema.descend? steps = some sub := by
  induction hs with
  | self => rfl
  | step hchild _ ih =>
    exact (descend?_cons (h.child?_eq hchild) _).trans
      (ih (inherited_distinctKeys.of_isChild h hchild))

theorem WellFormed.of_child? (h : schema.WellFormed) (hs : schema.child? s = some sub) :
    sub.WellFormed :=
  inherited_wellFormed.of_child? h hs

theorem WellFormed.of_descend? (h : schema.WellFormed) (hs : schema.descend? steps = some sub) :
    sub.WellFormed :=
  inherited_wellFormed.of_descend? h hs

/-- At the end of the steps is an optional key with its schema and a default. -/
inductive DefaultAt (schema : Schema) : List Segment → Schema → Value → Prop
  | mk {steps : List Segment} {required : List (String × Schema)}
      {optional : List (String × Schema × Option Value)} {extra : Option Schema} {nullable : Bool}
      {k : String} {sub : Schema} {d : Value}
      (hs : schema.DeclaredAt steps (.dict required optional extra nullable))
      (hd : (k, sub, some d) ∈ optional) : DefaultAt schema (steps ++ [.key k]) sub d

namespace DefaultAt

theorem below (hs : schema.IsChild s child) (h : child.DefaultAt steps sub d) :
    schema.DefaultAt (s :: steps) sub d := by
  cases h with
  | mk hsteps hd => exact .mk (.step hs hsteps) hd

theorem wellFormed (h : schema.DefaultAt steps sub d) (hs : schema.WellFormed) :
    sub.WellFormed := by
  cases h with
  | mk hsteps hd =>
    cases inherited_wellFormed.of_declaredAt hs hsteps with
    | dict _ _ hoptional => exact hoptional _ hd

theorem hasDefault (h : schema.DefaultAt steps sub d) (hs : schema.WellFormed) :
    sub.HasDefault d := by
  cases h with
  | mk hsteps hd =>
    cases inherited_wellFormed.of_declaredAt hs hsteps with
    | dict _ _ _ hdefault _ => exact hdefault _ hd d rfl

end DefaultAt

end Schema
end TypedConfig

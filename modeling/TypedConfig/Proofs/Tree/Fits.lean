import TypedConfig.Proofs.Resolution.Equations
import TypedConfig.Proofs.Schema.DistinctKeys
import TypedConfig.Proofs.Tree.Built

/-!
# Values that fit a configuration

`Schema.Fits holds schema raw v`: the value has the shape that the schema and the configuration
have together. Dicts have the declared keys in the order of the schema and then the further ones in
the order of the configuration, an absent optional key has its default, and `holds` says what may
stand for a scalar. The value of a built tree fits if its leaves do (`Node.fits_value`).
-/

namespace TypedConfig

/-- Whether a document is neither null nor a container. -/
def Json.isScalar : Json → Bool
  | bool _ | number _ | string _ => true
  | null | array _ | object _ => false

namespace Schema

/-- The container that values of the schema are, if they are not leaves. -/
def container? : Schema → Option Container
  | dict .. => some .dict
  | list .. => some .list
  | scalar .. | any => none

mutual

/-- A value fits a configuration under a schema. -/
inductive Fits (holds : LeafType → Json → Value → Prop) : Schema → Json → Value → Prop
  | null {schema : Schema} (hs : schema.isNullable = true) : Fits holds schema .null .null
  | leaf {schema : Schema} {raw : Json} {v : Value} (hs : schema.container? = none)
      (hraw : raw.isScalar = true) (hv : holds schema.leafType raw v) : Fits holds schema raw v
  | alias {schema : Schema} {container : Container} {s name : String} {v : Value}
      (hs : schema.container? = some container) (hname : Template.soleReference? s = some name)
      (hv : v.kind = container.kind) : Fits holds schema (.string s) v
  | list {element : Schema} {nullable : Bool} {items : List Json} {vs : List Value}
      (h : FitsItems holds element items vs) :
      Fits holds (.list element nullable) (.array items) (.list vs)
  | dict {required : List (String × Schema)} {optional : List (String × Schema × Option Value)}
      {extra : Option Schema} {nullable : Bool} {entries : List (String × Json)}
      {rs os es : List (String × Value)} (hr : FitsRequired holds entries required rs)
      (ho : FitsOptional holds entries optional os)
      (he : FitsExtra holds extra (entries.filter fun e =>
        !(required.map Prod.fst ++ optional.map Prod.fst).contains e.1) es) :
      Fits holds (.dict required optional extra nullable) (.object entries) (.dict (rs ++ os ++ es))
  | anyList {items : List Json} {vs : List Value} (h : FitsItems holds .any items vs) :
      Fits holds .any (.array items) (.list vs)
  | anyDict {entries : List (String × Json)} {vs : List (String × Value)}
      (h : FitsExtra holds (some .any) entries vs) : Fits holds .any (.object entries) (.dict vs)

/-- Values fit items, one by one. -/
inductive FitsItems (holds : LeafType → Json → Value → Prop) :
    Schema → List Json → List Value → Prop
  | nil {element : Schema} : FitsItems holds element [] []
  | cons {element : Schema} {j : Json} {js : List Json} {v : Value} {vs : List Value}
      (h : Fits holds element j v) (hs : FitsItems holds element js vs) :
      FitsItems holds element (j :: js) (v :: vs)

/-- There is a fitting value for each required key, in order. -/
inductive FitsRequired (holds : LeafType → Json → Value → Prop) :
    List (String × Json) → List (String × Schema) → List (String × Value) → Prop
  | nil {entries : List (String × Json)} : FitsRequired holds entries [] []
  | cons {entries : List (String × Json)} {k : String} {schema : Schema} {j : Json} {v : Value}
      {required : List (String × Schema)} {vs : List (String × Value)}
      (hj : entries.lookup k = some j) (h : Fits holds schema j v)
      (hs : FitsRequired holds entries required vs) :
      FitsRequired holds entries ((k, schema) :: required) ((k, v) :: vs)

/-- There is a fitting value for each optional key, in order, or its default as it is. -/
inductive FitsOptional (holds : LeafType → Json → Value → Prop) :
    List (String × Json) → List (String × Schema × Option Value) → List (String × Value) → Prop
  | nil {entries : List (String × Json)} : FitsOptional holds entries [] []
  | present {entries : List (String × Json)} {k : String} {schema : Schema}
      {default : Option Value} {j : Json} {v : Value}
      {optional : List (String × Schema × Option Value)} {vs : List (String × Value)}
      (hj : entries.lookup k = some j) (h : Fits holds schema j v)
      (hs : FitsOptional holds entries optional vs) :
      FitsOptional holds entries ((k, schema, default) :: optional) ((k, v) :: vs)
  | absent {entries : List (String × Json)} {k : String} {schema : Schema} {default : Value}
      {optional : List (String × Schema × Option Value)} {vs : List (String × Value)}
      (hj : entries.lookup k = none) (hs : FitsOptional holds entries optional vs) :
      FitsOptional holds entries ((k, schema, some default) :: optional) ((k, default) :: vs)

/-- There is a fitting value for each entry, in order; without a schema there are no entries. -/
inductive FitsExtra (holds : LeafType → Json → Value → Prop) :
    Option Schema → List (String × Json) → List (String × Value) → Prop
  | nil {extra : Option Schema} : FitsExtra holds extra [] []
  | cons {schema : Schema} {k : String} {j : Json} {js : List (String × Json)} {v : Value}
      {vs : List (String × Value)} (h : Fits holds schema j v)
      (hs : FitsExtra holds (some schema) js vs) :
      FitsExtra holds (some schema) ((k, j) :: js) ((k, v) :: vs)

end

end Schema

/-! ### Values of built trees -/

/-- What a leaf may hold: its value from the beginning, what its type allows, or its container. -/
def Leaf.Holds (holds : LeafType → Json → Value → Prop) (l : Leaf) (v : Value) : Prop :=
  match l.preset, l.kind with
  | some d, _ => v = d
  | none, .typed type => holds type l.raw v
  | none, .alias container _ => v.kind = container.kind

namespace Node

variable {holds : LeafType → Json → Value → Prop} {σ : Assignment} {raw : Json}

/-- Each leaf has a value that it may hold. -/
def Held (holds : LeafType → Json → Value → Prop) (σ : Assignment) (n : Node) : Prop :=
  ∀ l ∈ n.leaves, l.Holds holds (σ l)

theorem Held.item {place : Keypath} {children : List Node}
    (h : Held holds σ (list place children)) : ∀ n ∈ children, Held holds σ n :=
  fun _ hn l hl => h l (mem_leaves_list hn hl)

theorem Held.entry {place : Keypath} {children : List (String × Node)}
    (h : Held holds σ (dict place children)) : ∀ c ∈ children, Held holds σ c.2 :=
  fun _ hc l hl => h l (mem_leaves_dict hc hl)

theorem Held.preset {place : Keypath} {type : LeafType} {d : Value}
    (h : Held holds σ (presetLeaf place type raw d)) : (presetLeaf place type raw d).value σ = d :=
  h ⟨place, .typed type, raw, some d⟩ (by simp [presetLeaf])

theorem Held.openLeaf {place : Keypath} {type : LeafType}
    (h : Held holds σ (openLeaf place type raw)) :
    holds type raw ((Node.openLeaf place type raw).value σ) :=
  h ⟨place, .typed type, raw, none⟩ (by simp [Node.openLeaf])

mutual

theorem fits_ofAny : ∀ (place : Keypath) (j : Json), Held holds σ (ofAny place j) →
    Schema.Fits holds .any j ((ofAny place j).value σ)
  | place, .object entries, h => .anyDict (fits_ofAnyEntries place entries h.entry)
  | place, .array items, h => .anyList (fits_ofAnyItems place 0 items h.item)
  | place, .null, h => by
    rw [ofAny, h.preset]
    exact .null rfl
  | place, .bool _, h | place, .number _, h | place, .string _, h =>
    .leaf rfl rfl h.openLeaf

theorem fits_ofAnyItems : ∀ (place : Keypath) (position : Nat) (js : List Json),
    (∀ n ∈ ofAnyItems place position js, Held holds σ n) →
      Schema.FitsItems holds .any js (itemValues σ (ofAnyItems place position js))
  | _, _, [], _ => .nil
  | place, position, j :: js, h => by
    obtain ⟨h₁, h⟩ := List.forall_mem_cons.1 h
    exact .cons (fits_ofAny _ j h₁) (fits_ofAnyItems place _ js h)

theorem fits_ofAnyEntries : ∀ (place : Keypath) (js : List (String × Json)),
    (∀ c ∈ ofAnyEntries place js, Held holds σ c.2) →
      Schema.FitsExtra holds (some .any) js (entryValues σ (ofAnyEntries place js))
  | _, [], _ => .nil
  | place, (k, j) :: js, h => by
    obtain ⟨h₁, h⟩ := List.forall_mem_cons.1 h
    exact .cons (fits_ofAny _ j h₁) (fits_ofAnyEntries place js h)

end

/-- What is built from a document under a schema has a fitting value. -/
def BuildsFitting (holds : LeafType → Json → Value → Prop) (σ : Assignment) (schema : Schema) :
    Prop :=
  ∀ place j n, build schema place j = .ok n → Held holds σ n → Schema.Fits holds schema j (n.value σ)

theorem fits_standIn {schema : Schema} {container : Container} {nullable : Bool} {place : Keypath}
    {n : Node} (hs : schema.container? = some container) (hnull : schema.isNullable = nullable)
    (hn : standIn? place container nullable raw = some n) (h : Held holds σ n) :
    Schema.Fits holds schema raw (n.value σ) := by
  rcases cases_of_standIn hn with ⟨rfl, hnullable, rfl⟩ | ⟨s, name, rfl, hname, rfl⟩
  · rw [h.preset]
    exact .null (hnull.trans hnullable)
  · exact .alias hs hname
      (h { place, kind := .alias container name, raw := .string s, preset := none } (by simp))

theorem fits_ofScalar {place : Keypath} {type : ScalarType} {nullable : Bool} {n : Node}
    (hn : ofScalar place type nullable raw = .ok n) (h : Held holds σ n) :
    Schema.Fits holds (.scalar type nullable) raw (n.value σ) := by
  rcases cases_of_ofScalar hn with ⟨rfl, hnullable, rfl⟩ | ⟨⟨hnull, harray, hobject⟩, rfl⟩
  · rw [h.preset]
    exact .null hnullable
  · refine .leaf rfl ?_ h.openLeaf
    cases raw with
    | null => exact absurd rfl hnull
    | array items => exact absurd rfl (harray items)
    | object entries => exact absurd rfl (hobject entries)
    | _ => rfl

theorem fits_ofItems {element : Schema} (hi : BuildsFitting holds σ element) {place : Keypath}
    {position : Nat} {js : List Json} {children : List Node}
    (hc : ofItems (fun p j => build element p j) place position js = .ok children)
    (h : ∀ n ∈ children, Held holds σ n) :
    Schema.FitsItems holds element js (itemValues σ children) := by
  induction js generalizing position children with
  | nil => cases hc; exact .nil
  | cons j js ih =>
    obtain ⟨child, hchild, hc⟩ := bind_eq_ok.1 hc
    obtain ⟨rest, hrest, hc⟩ := bind_eq_ok.1 hc
    cases hc
    obtain ⟨h₁, h⟩ := List.forall_mem_cons.1 h
    exact .cons (hi _ j child hchild h₁) (ih hrest h)

theorem fits_buildRequired {required : List (String × Schema)}
    (hi : ∀ e ∈ required, BuildsFitting holds σ e.2) {place : Keypath}
    {entries : List (String × Json)} {children : List (String × Node)}
    (hc : buildRequired place entries required = .ok children)
    (h : ∀ c ∈ children, Held holds σ c.2) :
    Schema.FitsRequired holds entries required (entryValues σ children) := by
  rw [buildRequired_eq_ok_iff] at hc
  induction hc with
  | nil => exact .nil
  | cons hchild _ ih =>
    obtain ⟨hi₁, hmore⟩ := List.forall_mem_cons.1 hi
    obtain ⟨h₁, hrest⟩ := List.forall_mem_cons.1 h
    cases hchild with
    | given hj hn => exact .cons hj (hi₁ _ _ _ hn h₁) (ih hmore hrest)

theorem fits_buildOptional {optional : List (String × Schema × Option Value)}
    (hi : ∀ e ∈ optional, BuildsFitting holds σ e.2.1) {place : Keypath}
    {entries : List (String × Json)} {children : List (String × Node)}
    (hc : buildOptional place entries optional = .ok children)
    (h : ∀ c ∈ children, Held holds σ c.2) :
    Schema.FitsOptional holds entries optional (entryValues σ children) := by
  rw [buildOptional_eq_ok_iff] at hc
  induction hc with
  | nil => exact .nil
  | cons hchild _ ih =>
    obtain ⟨hi₁, hmore⟩ := List.forall_mem_cons.1 hi
    obtain ⟨h₁, hrest⟩ := List.forall_mem_cons.1 h
    cases hchild with
    | given hj hn => exact .present hj (hi₁ _ _ _ hn h₁) (ih hmore hrest)
    | absent hj =>
      rw [entryValues, Held.preset h₁]
      exact .absent hj (ih hmore hrest)

theorem fits_ofExtra {extra : Option Schema} (hi : ∀ s, extra = some s → BuildsFitting holds σ s)
    {place : Keypath} {js : List (String × Json)} {children : List (String × Node)}
    (hc : ofExtra (buildExtra extra) place js = .ok children)
    (h : ∀ c ∈ children, Held holds σ c.2) :
    Schema.FitsExtra holds extra js (entryValues σ children) := by
  rw [ofExtra_eq_ok_iff] at hc
  induction hc with
  | nil => exact .nil
  | cons hchild _ ih =>
    obtain ⟨h₁, hrest⟩ := List.forall_mem_cons.1 h
    cases hchild with
    | given hs hn =>
      subst hs
      exact .cons (hi _ rfl _ _ _ hn h₁) (ih hrest)

/-- If each leaf has a value that it may hold, the value of the tree fits. -/
theorem fits_value {schema : Schema} (hs : schema.DistinctKeys) : BuildsFitting holds σ schema := by
  induction hs with
  | any =>
    rintro place j n hn h
    cases hn
    exact fits_ofAny place j h
  | scalar => exact fun place j n hn h => fits_ofScalar hn h
  | list _ ih =>
    intro place j n hn h
    rcases build_list_eq_ok_iff.1 hn with hn | ⟨items, children, rfl, rfl, hc⟩
    · exact fits_standIn rfl rfl hn h
    · exact .list (fits_ofItems ih hc h.item)
  | dict _ _ _ _ hrequired hoptional hextra =>
    intro place j n hn h
    rcases build_dict_eq_ok_iff.1 hn with hn | ⟨entries, cs₁, cs₂, cs₃, rfl, rfl, h₁, h₂, h₃⟩
    · exact fits_standIn rfl rfl hn h
    · have hheld := h.entry
      simp only [List.forall_mem_append] at hheld
      have hr := fits_buildRequired hrequired h₁ hheld.1.1
      have ho := fits_buildOptional hoptional h₂ hheld.1.2
      have he := fits_ofExtra hextra h₃ hheld.2
      rw [value, entryValues_eq_map, List.map_append, List.map_append]
      simp only [entryValues_eq_map] at hr ho he
      exact .dict hr ho he

end Node
end TypedConfig

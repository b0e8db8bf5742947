import Mathlib.Data.List.Forall2
import TypedConfig.Proofs.Except
import TypedConfig.Tree.Build

/-!
# How trees are built

What each function of the builder makes, said once, so that properties of built trees need not
open it again: the leaves that stand for something (`Node.cases_of_standIn`,
`Node.cases_of_ofScalar`), the children one by one (`Node.buildRequired_eq_ok_iff` and its like),
and the tree under a schema of lists or dicts (`Node.build_list_eq_ok_iff`,
`Node.build_dict_eq_ok_iff`).
-/

namespace TypedConfig.Node

variable {place : Keypath} {raw : Json} {n : Node} {entries : List (String × Json)}
  {children : List (String × Node)} {required : List (String × Schema)}
  {optional : List (String × Schema × Option Value)} {extra : Option Schema} {nullable : Bool}

/-! ### Leaves -/

theorem cases_of_standIn {container : Container}
    (h : standIn? place container nullable raw = some n) :
    (raw = .null ∧ nullable = true ∧ n = presetLeaf place .any .null .null) ∨
      ∃ s name, raw = .string s ∧ Template.soleReference? s = some name ∧
        n = leaf { place, kind := .alias container name, raw := .string s, preset := none } := by
  unfold standIn? at h
  split at h
  · obtain ⟨hnull, h⟩ := Option.ite_none_right_eq_some.1 h
    cases h
    exact .inl ⟨rfl, hnull, rfl⟩
  · next s =>
    obtain ⟨name, hname, rfl⟩ := Option.map_eq_some_iff.1 h
    exact .inr ⟨s, name, rfl, hname, rfl⟩
  · cases h

theorem cases_of_ofScalar {type : ScalarType} (h : ofScalar place type nullable raw = .ok n) :
    (raw = .null ∧ nullable = true ∧ n = presetLeaf place (.scalar type) .null .null) ∨
      (raw ≠ .null ∧ (∀ items, raw ≠ .array items) ∧ ∀ entries, raw ≠ .object entries) ∧
        n = openLeaf place (.scalar type) raw := by
  unfold ofScalar at h
  split at h
  · split at h
    · next hnull =>
      cases h
      exact .inl ⟨rfl, hnull, rfl⟩
    · cases h
  · cases h
  · cases h
  · next hnull harray hobject =>
    cases h
    exact .inr ⟨⟨hnull, harray, hobject⟩, rfl⟩

theorem eq_leaf_of_standIn {container : Container}
    (h : standIn? place container nullable raw = some n) : ∃ l, n = leaf l := by
  rcases cases_of_standIn h with ⟨-, -, rfl⟩ | ⟨s, name, -, -, rfl⟩
  · exact ⟨_, rfl⟩
  · exact ⟨_, rfl⟩

theorem eq_leaf_of_ofScalar {type : ScalarType} (h : ofScalar place type nullable raw = .ok n) :
    ∃ l, n = leaf l ∧ l.kind = .typed (.scalar type) := by
  rcases cases_of_ofScalar h with ⟨-, -, rfl⟩ | ⟨-, rfl⟩
  · exact ⟨_, rfl, rfl⟩
  · exact ⟨_, rfl, rfl⟩

/-! ### Children -/

section
variable {item : Keypath → Json → Except ShapeError Node} {position : Nat} {js : List Json}
  {children : List Node}

theorem length_ofItems (h : ofItems item place position js = .ok children) :
    children.length = js.length := by
  induction js generalizing position children with
  | nil =>
    cases h
    rfl
  | cons j js ih =>
    obtain ⟨child, -, h⟩ := bind_eq_ok.1 h
    obtain ⟨rest, hrest, h⟩ := bind_eq_ok.1 h
    cases h
    rw [List.length_cons, List.length_cons, ih hrest]

theorem exists_item_of_ofItems (h : ofItems item place position js = .ok children) {i : Nat}
    (hn : children[i]? = some n) :
    ∃ j, js[i]? = some j ∧ item (place.index (position + i)) j = .ok n := by
  induction js generalizing position children i with
  | nil =>
    cases h
    cases hn
  | cons j js ih =>
    obtain ⟨child, hchild, h⟩ := bind_eq_ok.1 h
    obtain ⟨rest, hrest, h⟩ := bind_eq_ok.1 h
    cases h
    cases i with
    | zero =>
      cases hn
      exact ⟨j, rfl, hchild⟩
    | succ i =>
      obtain ⟨j', hj', hn'⟩ := ih hrest (List.getElem?_cons_succ ▸ hn)
      refine ⟨j', hj', ?_⟩
      rwa [Nat.add_assoc, Nat.add_comm 1] at hn'

end

/-- The child for a required key. -/
inductive RequiredChild (place : Keypath) (entries : List (String × Json)) :
    String × Schema → String × Node → Prop
  | given {k : String} {schema : Schema} {j : Json} {n : Node} (hj : entries.lookup k = some j)
      (hn : build schema (place.key k) j = .ok n) : RequiredChild place entries (k, schema) (k, n)

/-- The child for an optional key. -/
inductive OptionalChild (place : Keypath) (entries : List (String × Json)) :
    String × Schema × Option Value → String × Node → Prop
  | given {k : String} {schema : Schema} {default : Option Value} {j : Json} {n : Node}
      (hj : entries.lookup k = some j) (hn : build schema (place.key k) j = .ok n) :
      OptionalChild place entries (k, schema, default) (k, n)
  | absent {k : String} {schema : Schema} {d : Value} (hj : entries.lookup k = none) :
      OptionalChild place entries (k, schema, some d)
        (k, presetLeaf (place.key k) schema.leafType .null d)

/-- The child for a key that is not declared. -/
inductive ExtraChild (place : Keypath) (extra : Option Schema) :
    String × Json → String × Node → Prop
  | given {k : String} {j : Json} {schema : Schema} {n : Node} (hs : extra = some schema)
      (hn : build schema (place.key k) j = .ok n) : ExtraChild place extra (k, j) (k, n)

theorem buildRequired_eq_ok_iff : buildRequired place entries required = .ok children ↔
    List.Forall₂ (RequiredChild place entries) required children := by
  induction required generalizing children with
  | nil => simp [buildRequired, eq_comm]
  | cons e required ih =>
    obtain ⟨k, schema⟩ := e
    rw [buildRequired]
    constructor
    · intro h
      split at h
      · cases h
      · next j hj =>
        obtain ⟨child, hchild, h⟩ := bind_eq_ok.1 h
        obtain ⟨rest, hrest, h⟩ := bind_eq_ok.1 h
        cases h
        exact .cons (.given hj hchild) (ih.1 hrest)
    · rintro (_ | ⟨⟨hj, hn⟩, hrest⟩)
      simp only [hj, hn, ih.2 hrest]
      rfl

theorem buildOptional_eq_ok_iff : buildOptional place entries optional = .ok children ↔
    List.Forall₂ (OptionalChild place entries) optional children := by
  induction optional generalizing children with
  | nil => simp [buildOptional, eq_comm]
  | cons e optional ih =>
    obtain ⟨k, schema, default⟩ := e
    unfold buildOptional
    constructor
    · intro h
      split at h
      · next j hj =>
        obtain ⟨child, hchild, h⟩ := bind_eq_ok.1 h
        obtain ⟨rest, hrest, h⟩ := bind_eq_ok.1 h
        cases h
        exact .cons (.given hj hchild) (ih.1 hrest)
      · next d hj =>
        obtain ⟨rest, hrest, h⟩ := bind_eq_ok.1 h
        cases h
        exact .cons (.absent hj) (ih.1 hrest)
      · cases h
    · rintro (_ | ⟨⟨hj, hn⟩ | hj, hrest⟩)
      · simp only [hj, hn, ih.2 hrest]
        rfl
      · simp only [hj, ih.2 hrest]
        rfl

theorem ofExtra_eq_ok_iff {js : List (String × Json)} :
    ofExtra (buildExtra extra) place js = .ok children ↔
      List.Forall₂ (ExtraChild place extra) js children := by
  induction js generalizing children with
  | nil => simp [ofExtra, eq_comm]
  | cons e js ih =>
    obtain ⟨k, j⟩ := e
    constructor
    · intro h
      cases extra with
      | none => cases h
      | some schema =>
        obtain ⟨child, hchild, h⟩ := bind_eq_ok.1 h
        obtain ⟨rest, hrest, h⟩ := bind_eq_ok.1 h
        cases h
        exact .cons (.given rfl hchild) (ih.1 hrest)
    · rintro (_ | ⟨⟨rfl, hn⟩, hrest⟩)
      have hrest := ih.2 hrest
      rw [buildExtra] at hrest ⊢
      rw [ofExtra, hn, hrest]
      rfl

theorem ExtraChild.unique {e : String × Json} {c c' : String × Node}
    (h : ExtraChild place extra e c) (h' : ExtraChild place extra e c') : c = c' := by
  obtain ⟨hs, hn⟩ := h
  obtain ⟨hs', hn'⟩ := h'
  cases hs.symm.trans hs'
  cases hn.symm.trans hn'
  rfl

/-- What children have been built from has their keys. -/
theorem map_fst_of_children {α : Type} {r : String × α → String × Node → Prop}
    {es : List (String × α)} (h : List.Forall₂ r es children) (hr : ∀ e c, r e c → c.1 = e.1) :
    children.map Prod.fst = es.map Prod.fst := by
  induction h with
  | nil => rfl
  | cons hc _ ih => rw [List.map_cons, List.map_cons, ih, hr _ _ hc]

theorem exists_of_mem_children {α : Type} {r : α → String × Node → Prop} {es : List α}
    (h : List.Forall₂ r es children) {c : String × Node} (hc : c ∈ children) : ∃ e ∈ es, r e c := by
  induction h with
  | nil => cases hc
  | cons hr _ ih =>
    rcases List.mem_cons.1 hc with rfl | hc
    · exact ⟨_, List.mem_cons_self .., hr⟩
    · obtain ⟨e, he, hr⟩ := ih hc
      exact ⟨e, List.mem_cons_of_mem _ he, hr⟩

/-! ### Trees -/

theorem build_list_eq_ok_iff {element : Schema} : build (.list element nullable) place raw = .ok n ↔
    standIn? place .list nullable raw = some n ∨
      ∃ items children, raw = .array items ∧ n = list place children ∧
        ofItems (fun p j => build element p j) place 0 items = .ok children := by
  constructor
  · intro h
    unfold build at h
    split at h
    · next hn =>
      cases h
      exact .inl hn
    · split at h
      · next items _ =>
        obtain ⟨children, hc, h⟩ := bind_eq_ok.1 h
        cases h
        exact .inr ⟨items, children, rfl, rfl, hc⟩
      · cases h
  · rintro (hn | ⟨items, children, rfl, rfl, hc⟩)
    · unfold build
      rw [hn]
    · simp only [build, standIn?, hc]
      rfl

theorem build_dict_eq_ok_iff :
    build (.dict required optional extra nullable) place raw = .ok n ↔
      standIn? place .dict nullable raw = some n ∨
        ∃ entries cs₁ cs₂ cs₃, raw = .object entries ∧ n = dict place (cs₁ ++ cs₂ ++ cs₃) ∧
          buildRequired place entries required = .ok cs₁ ∧
          buildOptional place entries optional = .ok cs₂ ∧
          ofExtra (buildExtra extra) place (entries.filter fun e =>
            !(required.map Prod.fst ++ optional.map Prod.fst).contains e.1) = .ok cs₃ := by
  constructor
  · intro h
    unfold build at h
    split at h
    · next hn =>
      cases h
      exact .inl hn
    · split at h
      · next entries _ =>
        obtain ⟨cs₁, h₁, h⟩ := bind_eq_ok.1 h
        obtain ⟨cs₂, h₂, h⟩ := bind_eq_ok.1 h
        obtain ⟨cs₃, h₃, h⟩ := bind_eq_ok.1 h
        cases h
        exact .inr ⟨entries, cs₁, cs₂, cs₃, rfl, rfl, h₁, h₂, h₃⟩
      · cases h
  · rintro (hn | ⟨entries, cs₁, cs₂, cs₃, rfl, rfl, h₁, h₂, h₃⟩)
    · unfold build
      rw [hn]
    · simp only [build, standIn?, h₁, h₂, h₃]
      rfl

theorem ofConfig_eq_ok_iff {schema : Schema} {root : Node} :
    ofConfig schema raw = .ok root ↔ ∃ n, build schema .root raw = .ok n ∧ root = n.keyed := by
  unfold ofConfig
  constructor
  · intro h
    obtain ⟨n, hn, h⟩ := bind_eq_ok.1 h
    cases h
    exact ⟨n, hn, rfl⟩
  · rintro ⟨n, hn, rfl⟩
    rw [hn]
    rfl

theorem ofConfig_eq_error_iff {schema : Schema} {e : ShapeError} :
    ofConfig schema raw = .error e ↔ build schema .root raw = .error e := by
  unfold ofConfig
  cases build schema .root raw with
  | error e' => exact Iff.rfl
  | ok n =>
    constructor
    · intro h
      cases h
    · intro h
      cases h

end TypedConfig.Node

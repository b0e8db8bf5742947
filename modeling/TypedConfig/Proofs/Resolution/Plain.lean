import TypedConfig.Proofs.Json.AsValue
import TypedConfig.Proofs.Lookup
import TypedConfig.Proofs.Resolution.Shape
import TypedConfig.Proofs.Template.Plain

/-!
# Plain configurations

In a plain configuration no string opens a reference, so that each scalar is read on its own. It
resolves to a value if and only if the value fits it with the scalars that are read
(`Resolver.resolve_eq_ok_iff_fits`).
-/

namespace TypedConfig

/-- A document without repeated keys in which no string opens a reference. -/
inductive Json.Plain : Json → Prop
  | null : Plain .null
  | bool (b : Bool) : Plain (.bool b)
  | number (n : Json.Number) : Plain (.number n)
  | string {s : String} (h : Template.hasOpening s.toList = false) : Plain (.string s)
  | array {items : List Json} (hitems : ∀ j ∈ items, Plain j) : Plain (.array items)
  | object {entries : List (String × Json)} (hkeys : (entries.map Prod.fst).Nodup)
      (hentries : ∀ e ∈ entries, Plain e.2) : Plain (.object entries)

theorem Json.DistinctKeys.plain {j : Json} (h : j.DistinctKeys)
    (hstrings : ∀ s, j.Contains (.string s) → Template.hasOpening s.toList = false) : j.Plain := by
  induction h with
  | null => exact .null
  | bool b => exact .bool b
  | number n => exact .number n
  | string s => exact .string (hstrings s (.refl _))
  | array _ ih => exact .array fun j hj => ih j hj fun s hs => hstrings s (.item hj hs)
  | object hkeys _ ih =>
    exact .object hkeys fun e he => ih e he fun s hs => hstrings s (.entry he hs)

theorem Json.Plain.distinctKeys {j : Json} (h : j.Plain) : j.DistinctKeys := by
  induction h with
  | null => exact .null
  | bool b => exact .bool b
  | number n => exact .number n
  | string => exact .string _
  | array _ ih => exact .array ih
  | object hkeys _ ih => exact .object hkeys ih

/-- What a plain scalar is read as: what the parser of its type makes of its text, or, where
anything may stand, the scalar itself. -/
def LeafType.Reads (type : LeafType) (raw : Json) (v : Value) : Prop :=
  raw.Plain → match type with
    | .any => v = .ofJson raw
    | .scalar _ => LeafParser.builtin type raw.scalarText = .ok v

/-! ### Leaves -/

variable {s : Settings} {raw : Json} {v : Value}

/-- The parsers are the ones that the types have by themselves, and references open with a dollar
sign. -/
structure Settings.IsBuiltin (s : Settings) : Prop where
  parsers : s.parsers = .none
  dialect : s.dialect = .interpolation

theorem Settings.IsBuiltin.parsed_eq_ok_iff (hs : s.IsBuiltin) {place : Keypath} {type : LeafType}
    {text : String} :
    s.parsed place type raw text = .ok v ↔ LeafParser.builtin type text = .ok v := by
  rw [Settings.parsed_eq_ok_iff, hs.parsers]
  rfl

theorem Settings.IsBuiltin.typedValue_eq_ok_iff (hs : s.IsBuiltin) (hraw : raw.Plain)
    {world : Value} {place : Keypath} {type : LeafType} :
    s.typedValue world place type raw = .ok v ↔ type.Reads raw v := by
  have hreads : type.Reads raw v ↔ match type with
      | .any => v = .ofJson raw
      | .scalar _ => LeafParser.builtin type raw.scalarText = .ok v := by
    simp [LeafType.Reads, hraw]
  rw [hreads]
  unfold typedValue
  cases raw with
  | string text =>
    cases hraw with
    | string hopening =>
      simp only [hs.dialect, Template.render_of_plain hopening]
      refine hs.parsed_eq_ok_iff.trans ?_
      cases type with
      | scalar => rfl
      | any => exact ⟨fun h => (Except.ok.inj h).symm, fun h => congrArg _ h.symm⟩
  | _ =>
    cases type with
    | scalar => exact hs.parsed_eq_ok_iff
    | any => exact ⟨fun h => (Except.ok.inj h).symm, fun h => congrArg _ h.symm⟩

/-- The value that a leaf has without regard to the configuration around it. -/
def Leaf.own (s : Settings) (l : Leaf) : Value :=
  match l.evaluate s .null with
  | .ok v => v
  | .error _ => .null

/-- A leaf asks for no names, and has a value. -/
def Leaf.IsClosed (s : Settings) (l : Leaf) : Prop :=
  l.names s.dialect = [] ∧ l.evaluate s .null = .ok (l.own s)

theorem Leaf.IsClosed.evaluate {l : Leaf} (h : l.IsClosed s) (world : Value) :
    l.evaluate s world = .ok (l.own s) := by
  rw [evaluate_eq_of_names, h.2]
  simp [h.1]

namespace Node

/-- All leaves are closed, and with their own values the node has a value. -/
def ComesTo (s : Settings) (n : Node) (v : Value) : Prop :=
  (∀ l ∈ n.leaves, l.IsClosed s) ∧ n.value (Leaf.own s) = v

theorem comesTo_leaf {l : Leaf} (hnames : l.names s.dialect = [])
    (hv : l.evaluate s .null = .ok v) : (leaf l).ComesTo s v := by
  have hown : l.own s = v := by rw [Leaf.own, hv]
  refine ⟨fun l' hl' => ?_, hown⟩
  rw [leaves_leaf, List.mem_singleton] at hl'
  subst hl'
  exact ⟨hnames, by rw [hv, hown]⟩

theorem comesTo_presetLeaf (place : Keypath) (type : LeafType) (raw : Json) (v : Value) :
    (presetLeaf place type raw v).ComesTo s v :=
  comesTo_leaf rfl rfl

theorem comesTo_openLeaf (hs : s.IsBuiltin) (hraw : raw.Plain) {place : Keypath} {type : LeafType}
    (hv : type.Reads raw v) : (openLeaf place type raw).ComesTo s v := by
  refine comesTo_leaf ?_ ((hs.typedValue_eq_ok_iff hraw).2 hv)
  cases hraw with
  | string hopening => simp only [Leaf.names, hs.dialect, Template.names_of_plain hopening]
  | _ => rfl

/-- Children come to values, one by one. -/
def EntriesComeTo (s : Settings) (children : List (String × Node)) (vs : List (String × Value)) :
    Prop :=
  List.Forall₂ (fun c e => c.1 = e.1 ∧ c.2.ComesTo s e.2) children vs

theorem EntriesComeTo.comesTo {place : Keypath} {children : List (String × Node)}
    {vs : List (String × Value)} (h : EntriesComeTo s children vs) :
    (dict place children).ComesTo s (.dict vs) := by
  have hparts : (∀ c ∈ children, ∀ l ∈ c.2.leaves, l.IsClosed s) ∧
      entryValues (Leaf.own s) children = vs := by
    induction h with
    | nil => exact ⟨by simp, rfl⟩
    | @cons c e children vs hc _ ih =>
      obtain ⟨k, n⟩ := c
      obtain ⟨k', v⟩ := e
      obtain ⟨rfl, hleaves, rfl⟩ := hc
      exact ⟨List.forall_mem_cons.2 ⟨hleaves, ih.1⟩, by rw [entryValues, ih.2]⟩
  refine ⟨fun l hl => ?_, by rw [value, hparts.2]⟩
  rw [leaves_dict, List.mem_flatMap] at hl
  obtain ⟨c, hc, hl⟩ := hl
  exact hparts.1 c hc l hl

theorem comesTo_list {place : Keypath} {children : List Node} {vs : List Value}
    (h : List.Forall₂ (ComesTo s) children vs) : (list place children).ComesTo s (.list vs) := by
  have hparts : (∀ n ∈ children, ∀ l ∈ n.leaves, l.IsClosed s) ∧
      itemValues (Leaf.own s) children = vs := by
    induction h with
    | nil => exact ⟨by simp, rfl⟩
    | @cons n v children vs hn _ ih =>
      obtain ⟨hleaves, rfl⟩ := hn
      exact ⟨List.forall_mem_cons.2 ⟨hleaves, ih.1⟩, by rw [itemValues, ih.2]⟩
  refine ⟨fun l hl => ?_, by rw [value, hparts.2]⟩
  rw [leaves_list, List.mem_flatMap] at hl
  obtain ⟨n, hn, hl⟩ := hl
  exact hparts.1 n hn l hl

/-! ### Trees -/

theorem ofItems_any (place : Keypath) (position : Nat) (js : List Json) :
    ofItems (fun p j => build .any p j) place position js = .ok (ofAnyItems place position js) := by
  induction js generalizing position with
  | nil => rfl
  | cons j js ih => simp only [ofItems, ih, ofAnyItems]; rfl

theorem ofExtra_any (place : Keypath) (js : List (String × Json)) :
    ofExtra (buildExtra (some .any)) place js = .ok (ofAnyEntries place js) := by
  induction js with
  | nil => rfl
  | cons e js ih =>
    rw [buildExtra] at ih ⊢
    simp only [ofExtra, ih, ofAnyEntries]
    rfl

theorem exists_build_leaf (hs : s.IsBuiltin) {schema : Schema} (hleaf : schema.container? = none)
    (hscalar : raw.isScalar = true) (hraw : raw.Plain) (hv : schema.leafType.Reads raw v)
    (place : Keypath) : ∃ n, build schema place raw = .ok n ∧ n.ComesTo s v := by
  cases schema with
  | dict | list => cases hleaf
  | scalar type nullable =>
    have hbuild : build (.scalar type nullable) place raw =
        .ok (openLeaf place (.scalar type) raw) := by
      cases raw <;> first | rfl | cases hscalar
    exact ⟨_, hbuild, comesTo_openLeaf hs hraw hv⟩
  | any =>
    have hbuild : build .any place raw = .ok (openLeaf place .any raw) := by
      cases raw <;> first | rfl | cases hscalar
    exact ⟨_, hbuild, comesTo_openLeaf hs hraw hv⟩

theorem build_null {schema : Schema} (hnull : schema.isNullable = true) (place : Keypath) :
    ∃ type, build schema place .null = .ok (presetLeaf place type .null .null) := by
  cases schema with
  | any => exact ⟨_, rfl⟩
  | scalar => exact ⟨_, if_pos hnull⟩
  | list element nullable =>
    obtain rfl : nullable = true := hnull
    exact ⟨.any, rfl⟩
  | dict required optional extra nullable =>
    obtain rfl : nullable = true := hnull
    exact ⟨.any, rfl⟩

mutual

theorem exists_build_of_fits (hs : s.IsBuiltin) : ∀ {schema : Schema} {j : Json} {v : Value},
    schema.Fits LeafType.Reads j v → j.Plain → ∀ place : Keypath,
      ∃ n, build schema place j = .ok n ∧ n.ComesTo s v
  | _, _, _, .null hnull, _, place => by
    obtain ⟨type, hbuild⟩ := build_null hnull place
    exact ⟨_, hbuild, comesTo_presetLeaf ..⟩
  | _, _, _, .leaf hleaf hscalar hv, hj, place => exists_build_leaf hs hleaf hscalar hj hv place
  | _, _, _, .alias _ hname _, .string hopening, _ => by
    rw [Template.soleReference?_of_plain hopening] at hname
    cases hname
  | _, _, _, .list h, .array hj, place => by
    obtain ⟨children, hc, hvs⟩ := exists_ofItems_of_fits hs h hj place 0
    exact ⟨_, build_list_eq_ok_iff.2 (.inr ⟨_, _, rfl, rfl, hc⟩), comesTo_list hvs⟩
  | _, _, _, .dict hr ho he, .object _ hj, place => by
    obtain ⟨cs₁, h₁, hvs₁⟩ := exists_buildRequired_of_fits hs hr hj place
    obtain ⟨cs₂, h₂, hvs₂⟩ := exists_buildOptional_of_fits hs ho hj place
    obtain ⟨cs₃, h₃, hvs₃⟩ :=
      exists_ofExtra_of_fits hs he (fun e he => hj e (List.mem_filter.1 he).1) place
    have hall : EntriesComeTo s (cs₁ ++ cs₂ ++ cs₃) _ :=
      List.rel_append (List.rel_append hvs₁ hvs₂) hvs₃
    exact ⟨_, build_dict_eq_ok_iff.2 (.inr ⟨_, cs₁, cs₂, cs₃, rfl, rfl, h₁, h₂, h₃⟩), hall.comesTo⟩
  | _, _, _, .anyList h, .array hj, place => by
    obtain ⟨children, hc, hvs⟩ := exists_ofItems_of_fits hs h hj place 0
    rw [ofItems_any] at hc
    cases hc
    exact ⟨_, rfl, comesTo_list hvs⟩
  | _, _, _, .anyDict h, .object _ hj, place => by
    obtain ⟨children, hc, hvs⟩ := exists_ofExtra_of_fits hs h hj place
    rw [ofExtra_any] at hc
    cases hc
    exact ⟨_, rfl, hvs.comesTo⟩

theorem exists_ofItems_of_fits (hs : s.IsBuiltin) : ∀ {element : Schema} {js : List Json}
    {vs : List Value}, Schema.FitsItems LeafType.Reads element js vs → (∀ j ∈ js, j.Plain) →
      ∀ (place : Keypath) (position : Nat), ∃ children,
        ofItems (fun p j => build element p j) place position js = .ok children ∧
          List.Forall₂ (ComesTo s) children vs
  | _, _, _, .nil, _, _, _ => ⟨[], rfl, .nil⟩
  | _, _, _, .cons h htail, hj, place, position => by
    obtain ⟨hj₁, hj⟩ := List.forall_mem_cons.1 hj
    obtain ⟨n, hn, hv⟩ := exists_build_of_fits hs h hj₁ (place.index position)
    obtain ⟨children, hc, hvs⟩ := exists_ofItems_of_fits hs htail hj place (position + 1)
    exact ⟨_, by simp only [ofItems, hn, hc]; rfl, .cons hv hvs⟩

theorem exists_buildRequired_of_fits (hs : s.IsBuiltin) : ∀ {entries : List (String × Json)}
    {required : List (String × Schema)} {vs : List (String × Value)},
    Schema.FitsRequired LeafType.Reads entries required vs → (∀ e ∈ entries, e.2.Plain) →
      ∀ place : Keypath, ∃ children,
        buildRequired place entries required = .ok children ∧ EntriesComeTo s children vs
  | _, _, _, .nil, _, _ => ⟨[], rfl, .nil⟩
  | _, (k, _) :: _, _, .cons hk h htail, hj, place => by
    obtain ⟨n, hn, hv⟩ := exists_build_of_fits hs h (hj _ (mem_of_lookup hk)) (place.key k)
    obtain ⟨children, hc, hvs⟩ := exists_buildRequired_of_fits hs htail hj place
    rw [buildRequired_eq_ok_iff] at hc
    exact ⟨_, buildRequired_eq_ok_iff.2 (.cons (.given hk hn) hc), .cons ⟨rfl, hv⟩ hvs⟩

theorem exists_buildOptional_of_fits (hs : s.IsBuiltin) : ∀ {entries : List (String × Json)}
    {optional : List (String × Schema × Option Value)} {vs : List (String × Value)},
    Schema.FitsOptional LeafType.Reads entries optional vs → (∀ e ∈ entries, e.2.Plain) →
      ∀ place : Keypath, ∃ children,
        buildOptional place entries optional = .ok children ∧ EntriesComeTo s children vs
  | _, _, _, .nil, _, _ => ⟨[], rfl, .nil⟩
  | _, (k, _) :: _, _, .present hk h htail, hj, place => by
    obtain ⟨n, hn, hv⟩ := exists_build_of_fits hs h (hj _ (mem_of_lookup hk)) (place.key k)
    obtain ⟨children, hc, hvs⟩ := exists_buildOptional_of_fits hs htail hj place
    rw [buildOptional_eq_ok_iff] at hc
    exact ⟨_, buildOptional_eq_ok_iff.2 (.cons (.given hk hn) hc), .cons ⟨rfl, hv⟩ hvs⟩
  | _, _, _, .absent hk htail, hj, place => by
    obtain ⟨children, hc, hvs⟩ := exists_buildOptional_of_fits hs htail hj place
    rw [buildOptional_eq_ok_iff] at hc
    exact ⟨_, buildOptional_eq_ok_iff.2 (.cons (.absent hk) hc),
      .cons ⟨rfl, comesTo_presetLeaf ..⟩ hvs⟩

theorem exists_ofExtra_of_fits (hs : s.IsBuiltin) : ∀ {extra : Option Schema}
    {js : List (String × Json)} {vs : List (String × Value)},
    Schema.FitsExtra LeafType.Reads extra js vs → (∀ e ∈ js, e.2.Plain) →
      ∀ place : Keypath, ∃ children,
        ofExtra (buildExtra extra) place js = .ok children ∧ EntriesComeTo s children vs
  | _, _, _, .nil, _, _ => ⟨[], rfl, .nil⟩
  | some _, (k, _) :: _, _, .cons h htail, hj, place => by
    obtain ⟨hj₁, hj⟩ := List.forall_mem_cons.1 hj
    obtain ⟨n, hn, hv⟩ := exists_build_of_fits hs h hj₁ (place.key k)
    obtain ⟨children, hc, hvs⟩ := exists_ofExtra_of_fits hs htail hj place
    rw [ofExtra_eq_ok_iff] at hc
    exact ⟨_, ofExtra_eq_ok_iff.2 (.cons (.given rfl hn) hc), .cons ⟨rfl, hv⟩ hvs⟩

end

end Node

namespace Resolver

variable {r : Resolver}

/-- A plain configuration resolves to the values that fit it, its scalars being read. -/
theorem resolve_eq_ok_iff_fits (hs : r.schema.DistinctKeys) (hr : r.settings.IsBuiltin)
    (hvars : r.settings.checkVariables = .ok ()) (hraw : raw.Plain) :
    r.resolve raw = .ok v ↔ r.schema.Fits LeafType.Reads raw v := by
  constructor
  · refine fits_of_typedValue (fun world place type raw v h hplain => ?_) hs hraw.distinctKeys
    exact (hr.typedValue_eq_ok_iff hplain).1 h hplain
  · intro h
    obtain ⟨root, hb, hclosed, rfl⟩ := Node.exists_build_of_fits hr h hraw .root
    rw [← Node.ofConfig_eq_build hs hraw.distinctKeys] at hb
    refine resolve_of_solves hvars hb (fun l hl => (hclosed l hl).evaluate _)
      fun l hl hcycle => ?_
    obtain ⟨l', ⟨name, hname, -⟩, -⟩ := Relation.TransGen.head'_iff.1 hcycle
    rw [(hclosed l hl).1] at hname
    cases hname

end Resolver
end TypedConfig

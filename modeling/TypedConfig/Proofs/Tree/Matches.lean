import TypedConfig.Proofs.Lookup
import TypedConfig.Proofs.Tree.ClosedSchema
import TypedConfig.Proofs.Tree.Fits
import TypedConfig.Proofs.Tree.Places

/-!
# Configurations that match a schema

`Schema.Matches` says which documents match a schema. A tree is built from these and from no others,
and if none is built, the error says what does not match (`Node.exists_ofConfig_iff_matches`). Both
come from one statement about each function of the builder (`Decides`): if it succeeds the part
matches; if it fails the part does not, and the error is a witness of that.
-/

namespace TypedConfig

/-- The document matches the schema. Null and a sole reference stand for a whole container; a dict
has the required keys, the optional keys with no default, and no key that is not admitted. -/
inductive Schema.Matches : Schema → Json → Prop
  | null {schema : Schema} (hnull : schema.isNullable = true) : Matches schema .null
  | any (raw : Json) : Matches .any raw
  | scalar {type : ScalarType} {nullable : Bool} {raw : Json} (hraw : raw.isScalar = true) :
    Matches (.scalar type nullable) raw
  | reference {schema : Schema} {container : Container} {s name : String}
      (hs : schema.container? = some container) (hname : Template.soleReference? s = some name) :
      Matches schema (.string s)
  | list {element : Schema} {nullable : Bool} {items : List Json}
      (hitems : ∀ j ∈ items, Matches element j) : Matches (.list element nullable) (.array items)
  | dict {required : List (String × Schema)} {optional : List (String × Schema × Option Value)}
      {extra : Option Schema} {nullable : Bool} {entries : List (String × Json)}
      (hpresent : ∀ e ∈ required, entries.lookup e.1 ≠ none)
      (hrequired : ∀ e ∈ required, ∀ j, entries.lookup e.1 = some j → Matches e.2 j)
      (hdefault : ∀ e ∈ optional, entries.lookup e.1 = none → e.2.2 ≠ none)
      (hoptional : ∀ e ∈ optional, ∀ j, entries.lookup e.1 = some j → Matches e.2.1 j)
      (hadmitted : ∀ e ∈ entries, e.1 ∉ required.map Prod.fst ++ optional.map Prod.fst →
        extra ≠ none)
      (hextra : ∀ e ∈ entries, e.1 ∉ required.map Prod.fst ++ optional.map Prod.fst →
        ∀ schema, extra = some schema → Matches schema e.2) :
      Matches (.dict required optional extra nullable) (.object entries)

/-- The error names something in a document at a place that keeps it from matching the schema: a
part of another kind than its schema has, with both kinds; a key that is missing from an object
though it is required, or optional without a default; or a key of an object that is not declared
where no others are admitted. -/
inductive ShapeError.Witnesses (schema : Schema) (raw : Json) (place : Keypath) :
    ShapeError → Prop
  | mismatch {steps : List Segment} {sub : Schema} {part : Json} {expected : Kind}
      (hs : schema.descend? steps = some sub) (hj : raw.reach? steps = some part)
      (hexpected : expected.name = sub.type.name) (hne : ¬ sub.Matches part)
      (hkind : ∀ container, sub.container? = some container → part.kind ≠ container.kind) :
      Witnesses schema raw place (.mismatch (place.follow steps) expected part.kind)
  | missingKey {steps : List Segment} {required : List (String × Schema)}
      {optional : List (String × Schema × Option Value)} {extra : Option Schema} {nullable : Bool}
      {entries : List (String × Json)} {k : String}
      (hs : schema.descend? steps = some (.dict required optional extra nullable))
      (hj : raw.reach? steps = some (.object entries)) (hk : entries.lookup k = none)
      (hdeclared : k ∈ required.map Prod.fst ∨ ∃ sub, (k, sub, none) ∈ optional) :
      Witnesses schema raw place (.missingKey ((place.follow steps).key k))
  | unknownKey {steps : List Segment} {required : List (String × Schema)}
      {optional : List (String × Schema × Option Value)} {nullable : Bool}
      {entries : List (String × Json)} {k : String}
      (hs : schema.descend? steps = some (.dict required optional none nullable))
      (hj : raw.reach? steps = some (.object entries)) (hk : k ∈ entries.map Prod.fst)
      (hundeclared : k ∉ required.map Prod.fst ++ optional.map Prod.fst) :
      Witnesses schema raw place (.unknownKey ((place.follow steps).key k))

namespace ShapeError.Witnesses

section
variable {required : List (String × Schema)} {optional : List (String × Schema × Option Value)}
  {extra : Option Schema} {nullable : Bool} {entries : List (String × Json)} {place : Keypath}
  {k : String}

theorem missingKey_self (hk : entries.lookup k = none)
    (hdeclared : k ∈ required.map Prod.fst ∨ ∃ sub, (k, sub, none) ∈ optional) :
    (ShapeError.missingKey (place.key k)).Witnesses (.dict required optional extra nullable)
      (.object entries) place := by
  have hs : (Schema.dict required optional extra nullable).descend? [] = some _ := rfl
  have hj : (Json.object entries).reach? [] = some _ := rfl
  have h : (ShapeError.missingKey ((place.follow []).key k)).Witnesses
      (.dict required optional extra nullable) (.object entries) place :=
    .missingKey hs hj hk hdeclared
  rwa [Keypath.follow_nil] at h

theorem unknownKey_self (hk : k ∈ entries.map Prod.fst)
    (hundeclared : k ∉ required.map Prod.fst ++ optional.map Prod.fst) :
    (ShapeError.unknownKey (place.key k)).Witnesses (.dict required optional none nullable)
      (.object entries) place := by
  have hs : (Schema.dict required optional none nullable).descend? [] = some _ := rfl
  have hj : (Json.object entries).reach? [] = some _ := rfl
  have h : (ShapeError.unknownKey ((place.follow []).key k)).Witnesses
      (.dict required optional none nullable) (.object entries) place :=
    .unknownKey hs hj hk hundeclared
  rwa [Keypath.follow_nil] at h

end

/-- A witness in a part is one in the whole. -/
theorem below {schema child : Schema} {raw part : Json} {place : Keypath}
    {s : Segment} {e : ShapeError} (hs : schema.child? s = some child)
    (hj : raw.step? s = some part) (h : e.Witnesses child part (place.push s)) :
    e.Witnesses schema raw place := by
  have hdescend (steps : List Segment) : schema.descend? (s :: steps) = child.descend? steps := by
    rw [Schema.descend?, hs, Option.bind_some]
  have hreach (steps : List Segment) : raw.reach? (s :: steps) = part.reach? steps := by
    rw [Json.reach?, hj, Option.bind_some]
  cases h with
  | mismatch hsub hpart hexpected hne hkind =>
    rw [← Keypath.follow_cons]
    exact .mismatch ((hdescend _).trans hsub) ((hreach _).trans hpart) hexpected hne hkind
  | missingKey hsub hpart hk hdeclared =>
    rw [← Keypath.follow_cons]
    exact .missingKey ((hdescend _).trans hsub) ((hreach _).trans hpart) hk hdeclared
  | unknownKey hsub hpart hk hundeclared =>
    rw [← Keypath.follow_cons]
    exact .unknownKey ((hdescend _).trans hsub) ((hreach _).trans hpart) hk hundeclared

end ShapeError.Witnesses

/-! ### Deciding -/

/-- Success shows that the property holds; an error, that it does not, and is a witness. -/
def Decides {α : Type} (x : Except ShapeError α) (P : Prop) (W : ShapeError → Prop) : Prop :=
  Yields x (fun _ => P) fun e => ¬ P ∧ W e

namespace Decides

variable {α β : Type} {x : Except ShapeError α} {f : α → Except ShapeError β} {P Q : Prop}
  {W W' : ShapeError → Prop}

theorem mono (h : Decides x P W) (hP : P ↔ Q) (hW : ∀ e, W e → W' e) : Decides x Q W' := by
  refine Yields.mono h (fun _ hp => hP.1 hp) ?_
  rintro e ⟨hp, hw⟩
  exact ⟨fun hq => hp (hP.2 hq), hW e hw⟩

theorem bind (hx : Decides x P W) (hf : ∀ a, Decides (f a) Q W) : Decides (x >>= f) (P ∧ Q) W := by
  have hfirst : Yields x (fun _ => P) (fun e => ¬ (P ∧ Q) ∧ W e) := by
    refine Yields.mono hx (fun _ hp => hp) ?_
    rintro e ⟨hp, hw⟩
    exact ⟨fun h => hp h.1, hw⟩
  refine hfirst.bind fun a hp => ?_
  exact (hf a).mono ⟨fun hq => ⟨hp, hq⟩, fun h => h.2⟩ fun _ hw => hw

theorem bind_ok {g : α → β} (hx : Decides x P W) : Decides (x >>= fun a => .ok (g a)) P W :=
  Yields.bind hx fun _ hp => hp

end Decides

namespace Node

/-- Building under the schema decides whether a document matches it. -/
def BuildDecides (schema : Schema) : Prop :=
  ∀ place raw, raw.DistinctKeys →
    Decides (build schema place raw) (schema.Matches raw) (ShapeError.Witnesses schema raw place)

section
variable {place : Keypath} {W : ShapeError → Prop}

theorem decides_ofItems {element : Schema} {position : Nat} {js : List Json}
    (hi : ∀ i j, js[i]? = some j →
      Decides (build element (place.index (position + i)) j) (element.Matches j) W) :
    Decides (ofItems (fun p j => build element p j) place position js)
      (∀ j ∈ js, element.Matches j) W := by
  induction js generalizing position with
  | nil =>
    intro j hj
    cases hj
  | cons j js ih =>
    have hhead := hi 0 j rfl
    have htail := @ih (position + 1) fun i j' hj' => by
      have := hi (i + 1) j' (by simpa using hj')
      rwa [show position + (i + 1) = position + 1 + i by omega] at this
    exact (hhead.bind fun child => htail.bind_ok).mono List.forall_mem_cons.symm fun _ h => h

theorem decides_buildRequired {entries : List (String × Json)} {required : List (String × Schema)}
    (hi : ∀ e ∈ required, ∀ j, entries.lookup e.1 = some j →
      Decides (build e.2 (place.key e.1) j) (e.2.Matches j) W)
    (hmissing : ∀ e ∈ required, entries.lookup e.1 = none → W (.missingKey (place.key e.1))) :
    Decides (buildRequired place entries required)
      (∀ e ∈ required, ∃ j, entries.lookup e.1 = some j ∧ e.2.Matches j) W := by
  induction required with
  | nil =>
    intro e he
    cases he
  | cons e required ih =>
    obtain ⟨k, schema⟩ := e
    obtain ⟨hi₁, hi⟩ := List.forall_mem_cons.1 hi
    obtain ⟨hmissing₁, hmissing⟩ := List.forall_mem_cons.1 hmissing
    rw [buildRequired]
    cases hj : entries.lookup k with
    | none =>
      refine ⟨fun h => ?_, hmissing₁ hj⟩
      obtain ⟨j, hj', -⟩ := h (k, schema) (List.mem_cons_self ..)
      rw [hj] at hj'
      cases hj'
    | some j =>
      have hhead : schema.Matches j ↔ ∃ j', entries.lookup k = some j' ∧ schema.Matches j' := by
        simp [hj]
      refine ((hi₁ j hj).bind fun child => (ih hi hmissing).bind_ok).mono ?_ fun _ h => h
      rw [List.forall_mem_cons, hhead]

theorem decides_buildOptional {entries : List (String × Json)}
    {optional : List (String × Schema × Option Value)}
    (hi : ∀ e ∈ optional, ∀ j, entries.lookup e.1 = some j →
      Decides (build e.2.1 (place.key e.1) j) (e.2.1.Matches j) W)
    (hmissing : ∀ e ∈ optional, entries.lookup e.1 = none → e.2.2 = none →
      W (.missingKey (place.key e.1))) :
    Decides (buildOptional place entries optional)
      (∀ e ∈ optional, (∃ j, entries.lookup e.1 = some j ∧ e.2.1.Matches j) ∨
        entries.lookup e.1 = none ∧ e.2.2 ≠ none) W := by
  induction optional with
  | nil =>
    intro e he
    cases he
  | cons e optional ih =>
    obtain ⟨k, schema, default⟩ := e
    obtain ⟨hi₁, hi⟩ := List.forall_mem_cons.1 hi
    obtain ⟨hmissing₁, hmissing⟩ := List.forall_mem_cons.1 hmissing
    have htail := ih hi hmissing
    cases hj : entries.lookup k with
    | some j =>
      have hhead : schema.Matches j ↔ (∃ j', entries.lookup k = some j' ∧ schema.Matches j') ∨
          entries.lookup k = none ∧ default ≠ none := by
        simp [hj]
      unfold buildOptional
      rw [hj]
      refine ((hi₁ j hj).bind fun child => htail.bind_ok).mono ?_ fun _ h => h
      rw [List.forall_mem_cons, hhead]
    | none =>
      cases default with
      | some v =>
        have hhead : (∃ j', entries.lookup k = some j' ∧ schema.Matches j') ∨
            entries.lookup k = none ∧ some v ≠ none := .inr ⟨hj, by simp⟩
        unfold buildOptional
        rw [hj]
        refine htail.bind_ok.mono ⟨fun h => ?_, fun h => ?_⟩ fun _ h => h
        · exact List.forall_mem_cons.2 ⟨hhead, h⟩
        · exact (List.forall_mem_cons.1 h).2
      | none =>
        unfold buildOptional
        rw [hj]
        refine ⟨fun h => ?_, hmissing₁ hj rfl⟩
        have hhead := h (k, schema, none) (List.mem_cons_self ..)
        simp [hj] at hhead

theorem decides_ofExtra {extra : Option Schema} {js : List (String × Json)}
    (hi : ∀ schema, extra = some schema → ∀ e ∈ js,
      Decides (build schema (place.key e.1) e.2) (schema.Matches e.2) W)
    (hunknown : extra = none → ∀ e ∈ js, W (.unknownKey (place.key e.1))) :
    Decides (ofExtra (buildExtra extra) place js)
      (∀ e ∈ js, ∃ schema, extra = some schema ∧ schema.Matches e.2) W := by
  induction js with
  | nil =>
    intro e he
    cases he
  | cons e js ih =>
    obtain ⟨k, j⟩ := e
    cases extra with
    | none =>
      rw [buildExtra, ofExtra]
      refine ⟨fun h => ?_, hunknown rfl (k, j) (List.mem_cons_self ..)⟩
      obtain ⟨schema, hschema, -⟩ := h (k, j) (List.mem_cons_self ..)
      cases hschema
    | some schema =>
      have hhead := hi schema rfl (k, j) (List.mem_cons_self ..)
      have htail := ih
        (fun schema' h e he => hi schema' h e (List.mem_cons_of_mem _ he))
        (fun h e he => hunknown h e (List.mem_cons_of_mem _ he))
      refine (hhead.bind fun child => htail.bind_ok).mono ?_ fun _ h => h
      simp

end

theorem matches_of_standIn {schema : Schema} {place : Keypath} {container : Container}
    {raw : Json} {n : Node} (hs : schema.container? = some container)
    (h : standIn? place container schema.isNullable raw = some n) : schema.Matches raw := by
  unfold standIn? at h
  split at h
  · obtain ⟨hnull, -⟩ := Option.ite_none_right_eq_some.1 h
    exact .null hnull
  · obtain ⟨name, hname, -⟩ := Option.map_eq_some_iff.1 h
    exact .reference hs hname
  · cases h

/-- Where nothing stands in for a container, only a container matches. -/
theorem kind_of_matches {schema : Schema} {place : Keypath} {container : Container} {raw : Json}
    (hs : schema.container? = some container)
    (h : standIn? place container schema.isNullable raw = none) (hm : schema.Matches raw) :
    raw.kind = container.kind := by
  cases hm with
  | null hnull => simp [standIn?, hnull] at h
  | any => cases hs
  | scalar => cases hs
  | reference _ hname => simp [standIn?, hname] at h
  | list =>
    cases hs
    rfl
  | dict =>
    cases hs
    rfl

theorem decides_mismatch {schema : Schema} {raw : Json} {place : Keypath} {expected : Kind}
    (hexpected : expected.name = schema.type.name) (hne : ¬ schema.Matches raw)
    (hkind : ∀ container, schema.container? = some container → raw.kind ≠ container.kind) :
    Decides (.error (.mismatch place expected raw.kind) : Except ShapeError Node)
      (schema.Matches raw) (ShapeError.Witnesses schema raw place) := by
  have h : (ShapeError.mismatch (place.follow []) expected raw.kind).Witnesses schema raw place :=
    .mismatch rfl rfl hexpected hne hkind
  refine ⟨hne, ?_⟩
  rwa [Keypath.follow_nil] at h

/-- Where nothing stands in for a container, a part of another kind is a mismatch. -/
theorem decides_otherKind {schema : Schema} {raw : Json} {place : Keypath} {container : Container}
    (hs : schema.container? = some container)
    (hn : standIn? place container schema.isNullable raw = none)
    (hkind : raw.kind ≠ container.kind) :
    Decides (.error (.mismatch place container.kind raw.kind) : Except ShapeError Node)
      (schema.Matches raw) (ShapeError.Witnesses schema raw place) := by
  refine decides_mismatch ?_ (fun hm => hkind (kind_of_matches hs hn hm)) fun other hother => ?_
  · cases schema with
    | list | dict =>
      cases hs
      rfl
    | any | scalar => cases hs
  · obtain rfl : container = other := Option.some.inj (hs.symm.trans hother)
    exact hkind

theorem decides_ofScalar {place : Keypath} {type : ScalarType} {nullable : Bool} {raw : Json} :
    Decides (ofScalar place type nullable raw) ((Schema.scalar type nullable).Matches raw)
      (ShapeError.Witnesses (.scalar type nullable) raw place) := by
  cases raw with
  | null =>
    unfold ofScalar
    by_cases hnull : nullable = true
    · rw [if_pos hnull]
      exact .null hnull
    · rw [if_neg hnull]
      refine decides_mismatch rfl (fun h => ?_) nofun
      cases h with
      | null h => exact hnull h
      | scalar h => cases h
  | bool b => exact .scalar rfl
  | number n => exact .scalar rfl
  | string s => exact .scalar rfl
  | array items =>
    refine decides_mismatch rfl (fun h => ?_) nofun
    cases h with
    | scalar h => cases h
  | object entries =>
    refine decides_mismatch rfl (fun h => ?_) nofun
    cases h with
    | scalar h => cases h

/-- What is built for an object decides whether the object matches a dict. -/
theorem matches_dict_iff {required : List (String × Schema)}
    {optional : List (String × Schema × Option Value)} {extra : Option Schema} {nullable : Bool}
    {entries : List (String × Json)} :
    (Schema.dict required optional extra nullable).Matches (.object entries) ↔
      (∀ e ∈ required, ∃ j, entries.lookup e.1 = some j ∧ e.2.Matches j) ∧
      (∀ e ∈ optional, (∃ j, entries.lookup e.1 = some j ∧ e.2.1.Matches j) ∨
        entries.lookup e.1 = none ∧ e.2.2 ≠ none) ∧
      ∀ e ∈ entries.filter fun e =>
          !(required.map Prod.fst ++ optional.map Prod.fst).contains e.1,
        ∃ schema, extra = some schema ∧ schema.Matches e.2 := by
  constructor
  · intro h
    cases h with
    | dict hpresent hrequired hdefault hoptional hadmitted hextra =>
      refine ⟨fun e he => ?_, fun e he => ?_, fun e he => ?_⟩
      · obtain ⟨j, hj⟩ := Option.ne_none_iff_exists'.1 (hpresent e he)
        exact ⟨j, hj, hrequired e he j hj⟩
      · cases hj : entries.lookup e.1 with
        | none => exact .inr ⟨rfl, hdefault e he hj⟩
        | some j => exact .inl ⟨j, rfl, hoptional e he j hj⟩
      · obtain ⟨he, hk⟩ := List.mem_filter.1 he
        have hk : e.1 ∉ required.map Prod.fst ++ optional.map Prod.fst := by simpa using hk
        obtain ⟨schema, hschema⟩ := Option.ne_none_iff_exists'.1 (hadmitted e he hk)
        exact ⟨schema, hschema, hextra e he hk schema hschema⟩
  · rintro ⟨hrequired, hoptional, hextra⟩
    have hextra : ∀ e ∈ entries, e.1 ∉ required.map Prod.fst ++ optional.map Prod.fst →
        ∃ schema, extra = some schema ∧ schema.Matches e.2 := by
      intro e he hk
      exact hextra e (List.mem_filter.2 ⟨he, by simpa using hk⟩)
    refine .dict (fun e he hnone => ?_) (fun e he j hj => ?_) (fun e he hnone => ?_)
      (fun e he j hj => ?_) (fun e he hk hnone => ?_) fun e he hk schema hschema => ?_
    · obtain ⟨j, hj, -⟩ := hrequired e he
      rw [hnone] at hj
      cases hj
    · obtain ⟨j', hj', hm⟩ := hrequired e he
      cases hj.symm.trans hj'
      exact hm
    · rcases hoptional e he with ⟨j, hj, -⟩ | ⟨-, hdefault⟩
      · rw [hnone] at hj
        cases hj
      · exact hdefault
    · rcases hoptional e he with ⟨j', hj', hm⟩ | ⟨hnone, -⟩
      · cases hj.symm.trans hj'
        exact hm
      · rw [hnone] at hj
        cases hj
    · obtain ⟨schema, hschema, -⟩ := hextra e he hk
      rw [hnone] at hschema
      cases hschema
    · obtain ⟨schema', hschema', hm⟩ := hextra e he hk
      cases hschema.symm.trans hschema'
      exact hm

/-- What is built for a part decides within the whole whether the part matches. -/
theorem BuildDecides.below {schema child : Schema} {raw part : Json} {place : Keypath} {s : Segment}
    (h : BuildDecides child) (hs : schema.child? s = some child) (hj : raw.step? s = some part)
    (hdistinct : part.DistinctKeys) :
    Decides (build child (place.push s) part) (child.Matches part)
      (ShapeError.Witnesses schema raw place) :=
  (h (place.push s) part hdistinct).mono Iff.rfl fun _ he => he.below hs hj

theorem BuildDecides.list {element : Schema} {nullable : Bool} (helement : BuildDecides element) :
    BuildDecides (.list element nullable) := by
  intro place raw hraw
  have hs : (Schema.list element nullable).container? = some .list := rfl
  unfold build
  cases hn : standIn? place .list nullable raw with
  | some n => exact matches_of_standIn hs hn
  | none =>
    cases hraw with
    | @array items hitems =>
      have hi (i : Nat) (j : Json) (hj : items[i]? = some j) :
          Decides (build element (place.index (0 + i)) j) (element.Matches j)
            (ShapeError.Witnesses (.list element nullable) (.array items) place) := by
        have hstep : (Json.array items).step? (.index i) = some j := hj
        rw [Nat.zero_add]
        exact helement.below rfl hstep (hitems j (List.mem_of_getElem? hj))
      refine (decides_ofItems hi).bind_ok.mono ⟨fun h => .list h, fun h => ?_⟩ fun _ h => h
      cases h with
      | list h => exact h
    | _ => exact decides_otherKind hs hn (by simp [Json.kind, Container.kind])

theorem BuildDecides.dict {required : List (String × Schema)}
    {optional : List (String × Schema × Option Value)} {extra : Option Schema} {nullable : Bool}
    (nodup : (required.map Prod.fst ++ optional.map Prod.fst).Nodup)
    (hrequired : ∀ e ∈ required, BuildDecides e.2) (hoptional : ∀ e ∈ optional, BuildDecides e.2.1)
    (hextra : ∀ schema, extra = some schema → BuildDecides schema) :
    BuildDecides (.dict required optional extra nullable) := by
  intro place raw hraw
  have hs : (Schema.dict required optional extra nullable).container? = some .dict := rfl
  unfold build
  cases hn : standIn? place .dict nullable raw with
  | some n => exact matches_of_standIn hs hn
  | none =>
    cases hraw with
    | @object entries hkeys hentries =>
      have hbelow {k : String} {sub : Schema} {j : Json} (hsub : BuildDecides sub)
          (hs : (Schema.dict required optional extra nullable).child? (.key k) = some sub)
          (hj : entries.lookup k = some j) :
          Decides (build sub (place.key k) j) (sub.Matches j)
            (ShapeError.Witnesses (.dict required optional extra nullable) (.object entries)
              place) := by
        have hstep : (Json.object entries).step? (.key k) = some j := hj
        exact hsub.below hs hstep (hentries _ (mem_of_lookup hj))
      have hr := decides_buildRequired (fun e he j hj =>
          hbelow (hrequired e he) (Schema.child?_required nodup he) hj)
        fun e he hj => .missingKey_self hj (.inl (List.mem_map_of_mem he))
      have ho := decides_buildOptional (fun e he j hj =>
          hbelow (hoptional e he) (Schema.child?_optional nodup he) hj)
        fun e he hj hdefault => .missingKey_self hj (.inr ⟨e.2.1, hdefault ▸ he⟩)
      have hundeclared {e : String × Json} (he : e ∈ entries.filter fun e =>
          !(required.map Prod.fst ++ optional.map Prod.fst).contains e.1) :
          e ∈ entries ∧ e.1 ∉ required.map Prod.fst ++ optional.map Prod.fst := by
        simpa using he
      have he := decides_ofExtra (fun schema hschema e he =>
          hbelow (hextra schema hschema)
            ((Schema.child?_undeclared (hundeclared he).2).trans hschema)
            ((lookup_eq_some_iff_mem hkeys).2 (hundeclared he).1))
        fun hnone e he => hnone ▸
          .unknownKey_self (List.mem_map_of_mem (hundeclared he).1) (hundeclared he).2
      exact (hr.bind fun _ => ho.bind fun _ => he.bind_ok).mono matches_dict_iff.symm fun _ h => h
    | _ => exact decides_otherKind hs hn (by simp [Json.kind, Container.kind])

theorem buildDecides {schema : Schema} (h : schema.DistinctKeys) : BuildDecides schema := by
  induction h with
  | any => exact fun place raw _ => .any raw
  | scalar type nullable => exact fun place raw _ => decides_ofScalar
  | list _ ih => exact ih.list
  | dict nodup _ _ _ hrequired hoptional hextra => exact .dict nodup hrequired hoptional hextra

/-- A tree is built from a document if and only if it matches the schema, and an error is a witness
of what does not match. -/
theorem exists_ofConfig_iff_matches {schema : Schema} {raw : Json} (hs : schema.DistinctKeys)
    (hraw : raw.DistinctKeys) :
    ((∃ root, ofConfig schema raw = .ok root) ↔ schema.Matches raw) ∧
      ∀ e, ofConfig schema raw = .error e → e.Witnesses schema raw .root := by
  have hd : Decides (build schema .root raw) (schema.Matches raw)
      (ShapeError.Witnesses schema raw .root) := buildDecides hs .root raw hraw
  simp only [ofConfig_eq_ok_iff, ofConfig_eq_error_iff]
  cases hb : build schema .root raw with
  | ok n =>
    rw [hb] at hd
    refine ⟨⟨fun _ => hd, fun _ => ⟨n.keyed, n, rfl, rfl⟩⟩, fun e he => ?_⟩
    cases he
  | error e =>
    rw [hb] at hd
    refine ⟨⟨?_, fun hm => absurd hm hd.1⟩, fun e' he => ?_⟩
    · rintro ⟨root, n, hn, -⟩
      cases hn
    · cases he
      exact hd.2

/-- A server without the port that is optional but has no default, below a list. -/
theorem witnesses_of_server :
    let server : Schema := .dict [("host", .scalar .string false)]
      [("port", .scalar .integer false, none), ("tls", .scalar .boolean true, some .null)] none false
    let schema : Schema := .list server false
    let raw : Json := .array [.string "$\x7bthis.1\x7d", .object [("host", .string "h")]]
    ¬ schema.Matches raw ∧
      (ShapeError.missingKey ((Keypath.root.index 1).key "port")).Witnesses schema raw .root := by
  intro server schema raw
  have hs : schema.DistinctKeys :=
    .list (.dict (by simp) (by simp [Schema.DistinctKeys.scalar])
      (by simp [Schema.DistinctKeys.scalar]) (by simp))
  have hraw : raw.DistinctKeys := by
    refine .array fun j hj => ?_
    rcases List.mem_pair.1 hj with rfl | rfl
    · exact .string _
    · exact .object (by simp) (by simp)
  have hb : ofConfig schema raw = .error (.missingKey ((Keypath.root.index 1).key "port")) := by
    rfl
  obtain ⟨hiff, hwitness⟩ := exists_ofConfig_iff_matches hs hraw
  refine ⟨fun hm => ?_, hwitness _ hb⟩
  obtain ⟨root, hroot⟩ := hiff.2 hm
  rw [hb] at hroot
  cases hroot

end Node
end TypedConfig

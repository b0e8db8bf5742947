import TypedConfig.Proofs.Schema.Descent
import TypedConfig.Proofs.Tree.ClosedSchema
import TypedConfig.Proofs.Tree.Fits
import TypedConfig.Proofs.Tree.Places

/-!
# Parts of fitting values

If a value fits a configuration, what steps lead to in the value fits what the same steps lead to in
the configuration (`Schema.Fits.of_reach?`). A key that is not there has its default in the value, as
it is (`Schema.Fits.default_of_absent`).
-/

namespace TypedConfig.Schema

variable {holds : LeafType → Json → Value → Prop}

/-! ### Keys -/

theorem FitsRequired.map_fst : ∀ {entries : List (String × Json)}
    {required : List (String × Schema)} {vs : List (String × Value)},
    FitsRequired holds entries required vs → vs.map Prod.fst = required.map Prod.fst
  | _, _, _, .nil => rfl
  | _, _, _, .cons _ _ h => by rw [List.map_cons, h.map_fst, List.map_cons]

theorem FitsOptional.map_fst : ∀ {entries : List (String × Json)}
    {optional : List (String × Schema × Option Value)} {vs : List (String × Value)},
    FitsOptional holds entries optional vs → vs.map Prod.fst = optional.map Prod.fst
  | _, _, _, .nil => rfl
  | _, _, _, .present _ _ h => by rw [List.map_cons, h.map_fst, List.map_cons]
  | _, _, _, .absent _ h => by rw [List.map_cons, h.map_fst, List.map_cons]

theorem FitsExtra.map_fst : ∀ {extra : Option Schema} {js : List (String × Json)}
    {vs : List (String × Value)}, FitsExtra holds extra js vs → vs.map Prod.fst = js.map Prod.fst
  | _, _, _, .nil => rfl
  | _, _, _, .cons _ h => by rw [List.map_cons, h.map_fst, List.map_cons]

theorem nodup_keys_of_fits {required : List (String × Schema)}
    {optional : List (String × Schema × Option Value)} {extra : Option Schema}
    {entries : List (String × Json)} {rs os es : List (String × Value)}
    (hdeclared : (required.map Prod.fst ++ optional.map Prod.fst).Nodup)
    (hkeys : (entries.map Prod.fst).Nodup) (hr : FitsRequired holds entries required rs)
    (ho : FitsOptional holds entries optional os)
    (he : FitsExtra holds extra (entries.filter fun e =>
      !(required.map Prod.fst ++ optional.map Prod.fst).contains e.1) es) :
    ((rs ++ os ++ es).map Prod.fst).Nodup := by
  rw [List.map_append, List.map_append, hr.map_fst, ho.map_fst, he.map_fst]
  exact Node.nodup_declared_append hdeclared hkeys

/-! ### One step -/

theorem FitsItems.exists_getElem? {element : Schema} {j : Json} :
    ∀ {js : List Json} {vs : List Value} {i : Nat}, FitsItems holds element js vs →
      js[i]? = some j → ∃ v, vs[i]? = some v ∧ element.Fits holds j v
  | _, _, _, .nil, hj => by cases hj
  | _, _, 0, .cons h _, hj => by
    cases hj
    exact ⟨_, rfl, h⟩
  | _, _, _ + 1, .cons _ hs, hj => by
    rw [List.getElem?_cons_succ] at hj
    exact hs.exists_getElem? hj

theorem FitsRequired.exists_mem {e : String × Schema} {j : Json} :
    ∀ {entries : List (String × Json)} {required : List (String × Schema)}
      {vs : List (String × Value)}, FitsRequired holds entries required vs → e ∈ required →
      entries.lookup e.1 = some j → ∃ v, (e.1, v) ∈ vs ∧ e.2.Fits holds j v
  | _, _, _, .nil, he, _ => by cases he
  | _, _, _, .cons hj' h hs, he, hj => by
    rcases List.mem_cons.1 he with rfl | he
    · cases hj'.symm.trans hj
      exact ⟨_, List.mem_cons_self .., h⟩
    · obtain ⟨v, hv, h⟩ := hs.exists_mem he hj
      exact ⟨v, List.mem_cons_of_mem _ hv, h⟩

theorem FitsOptional.exists_mem {e : String × Schema × Option Value} {j : Json} :
    ∀ {entries : List (String × Json)} {optional : List (String × Schema × Option Value)}
      {vs : List (String × Value)}, FitsOptional holds entries optional vs → e ∈ optional →
      entries.lookup e.1 = some j → ∃ v, (e.1, v) ∈ vs ∧ e.2.1.Fits holds j v
  | _, _, _, .nil, he, _ => by cases he
  | _, _, _, .present hj' h hs, he, hj => by
    rcases List.mem_cons.1 he with rfl | he
    · cases hj'.symm.trans hj
      exact ⟨_, List.mem_cons_self .., h⟩
    · obtain ⟨v, hv, h⟩ := hs.exists_mem he hj
      exact ⟨v, List.mem_cons_of_mem _ hv, h⟩
  | _, _, _, .absent hj' hs, he, hj => by
    rcases List.mem_cons.1 he with rfl | he
    · cases hj'.symm.trans hj
    · obtain ⟨v, hv, h⟩ := hs.exists_mem he hj
      exact ⟨v, List.mem_cons_of_mem _ hv, h⟩

theorem FitsOptional.default_mem {k : String} {sub : Schema} {d : Value} :
    ∀ {entries : List (String × Json)} {optional : List (String × Schema × Option Value)}
      {vs : List (String × Value)}, FitsOptional holds entries optional vs →
      (k, sub, some d) ∈ optional → entries.lookup k = none → (k, d) ∈ vs
  | _, _, _, .nil, he, _ => by cases he
  | _, _, _, .present hj' _ hs, he, hj => by
    rcases List.mem_cons.1 he with heq | he
    · cases heq
      cases hj'.symm.trans hj
    · exact List.mem_cons_of_mem _ (hs.default_mem he hj)
  | _, _, _, .absent _ hs, he, hj => by
    rcases List.mem_cons.1 he with heq | he
    · cases heq
      exact List.mem_cons_self ..
    · exact List.mem_cons_of_mem _ (hs.default_mem he hj)

theorem FitsExtra.exists_mem {e : String × Json} :
    ∀ {extra : Option Schema} {js : List (String × Json)} {vs : List (String × Value)},
      FitsExtra holds extra js vs → e ∈ js →
      ∃ schema v, extra = some schema ∧ (e.1, v) ∈ vs ∧ schema.Fits holds e.2 v
  | _, _, _, .nil, he => by cases he
  | _, _, _, .cons h hs, he => by
    rcases List.mem_cons.1 he with rfl | he
    · exact ⟨_, _, rfl, List.mem_cons_self .., h⟩
    · obtain ⟨schema, v, hschema, hv, h⟩ := hs.exists_mem he
      exact ⟨schema, v, hschema, List.mem_cons_of_mem _ hv, h⟩

namespace Fits

variable {schema child sub : Schema} {raw part : Json} {v : Value} {s : Segment}
  {steps : List Segment}

theorem of_step? (hs : schema.WellFormed) (hraw : raw.DistinctKeys) (h : schema.Fits holds raw v)
    (hc : schema.child? s = some child) (hj : raw.step? s = some part) :
    ∃ w, v.step? s = some w ∧ child.Fits holds part w := by
  cases h with
  | null => cases s <;> cases hj
  | leaf _ hscalar =>
    cases raw with
    | array | object | null => cases hscalar
    | _ => cases s <;> cases hj
  | «alias» => cases s <;> cases hj
  | list hitems =>
    cases s with
    | key k => cases hj
    | index i =>
      cases hc
      exact hitems.exists_getElem? hj
  | anyList hitems =>
    cases s with
    | key k => cases hj
    | index i =>
      cases hc
      exact hitems.exists_getElem? hj
  | anyDict hentries =>
    cases s with
    | index i => cases hj
    | key k =>
      cases hc
      cases hraw with
      | object hkeys =>
        obtain ⟨schema, w, hschema, hw, hfits⟩ := hentries.exists_mem (mem_of_lookup hj)
        cases hschema
        exact ⟨w, (lookup_eq_some_iff_mem (hentries.map_fst ▸ hkeys)).2 hw, hfits⟩
  | @dict required optional extra nullable entries rs os es hr ho he =>
    cases s with
    | index i => cases hj
    | key k =>
      cases hraw with
      | object hkeys =>
        cases hs with
        | dict hdeclared =>
          have hnodup := nodup_keys_of_fits hdeclared hkeys hr ho he
          suffices hmem : ∃ w, (k, w) ∈ rs ++ os ++ es ∧ child.Fits holds part w by
            obtain ⟨w, hw, hfits⟩ := hmem
            exact ⟨w, (lookup_eq_some_iff_mem hnodup).2 hw, hfits⟩
          cases isChild_of_child? hc with
          | required hmem =>
            obtain ⟨w, hw, hfits⟩ := hr.exists_mem hmem hj
            exact ⟨w, by simp [hw], hfits⟩
          | optional hmem =>
            obtain ⟨w, hw, hfits⟩ := ho.exists_mem hmem hj
            exact ⟨w, by simp [hw], hfits⟩
          | extra hk =>
            have hmem : (k, part) ∈ entries.filter fun e =>
                !(required.map Prod.fst ++ optional.map Prod.fst).contains e.1 :=
              List.mem_filter.2 ⟨mem_of_lookup hj, by simpa using hk⟩
            obtain ⟨schema, w, hschema, hw, hfits⟩ := he.exists_mem hmem
            cases hschema
            exact ⟨w, by simp [hw], hfits⟩

theorem of_reach? (hs : schema.WellFormed) (hraw : raw.DistinctKeys) (h : schema.Fits holds raw v)
    (hsub : schema.descend? steps = some sub) (hj : raw.reach? steps = some part) :
    ∃ w, v.reach? steps = some w ∧ sub.Fits holds part w := by
  induction steps generalizing schema raw v with
  | nil =>
    cases hsub
    cases hj
    exact ⟨v, rfl, h⟩
  | cons s steps ih =>
    obtain ⟨child, hc, hsub⟩ := Option.bind_eq_some_iff.1 hsub
    obtain ⟨next, hnext, hj⟩ := Option.bind_eq_some_iff.1 hj
    obtain ⟨w, hw, hfits⟩ := h.of_step? hs hraw hc hnext
    obtain ⟨u, hu, hfits⟩ := ih (hs.of_child? hc) (hraw.of_step? hnext) hfits hsub hj
    refine ⟨u, ?_, hfits⟩
    rw [Value.reach?, hw, Option.bind_some, hu]

/-- Where a configuration leaves out a key with a default, the value has the default. -/
theorem default_of_absent {required : List (String × Schema)}
    {optional : List (String × Schema × Option Value)} {extra : Option Schema} {nullable : Bool}
    {entries : List (String × Json)} {k : String} {d : Value} (hs : schema.WellFormed)
    (hraw : raw.DistinctKeys) (h : schema.Fits holds raw v)
    (hsub : schema.descend? steps = some (.dict required optional extra nullable))
    (hd : (k, sub, some d) ∈ optional) (hj : raw.reach? steps = some (.object entries))
    (hk : entries.lookup k = none) : v.reach? (steps ++ [.key k]) = some d := by
  obtain ⟨w, hw, hfits⟩ := h.of_reach? hs hraw hsub hj
  have hentries : (Json.object entries).DistinctKeys := hraw.of_reach? hj
  rw [Value.reach?_append, hw]
  cases hfits with
  | leaf hcontainer => cases hcontainer
  | @dict _ _ _ _ _ rs os es hr ho he =>
    cases hentries with
    | object hkeys =>
      cases hs.of_descend? hsub with
      | dict hdeclared =>
        have hmem : (k, d) ∈ rs ++ os ++ es := by simp [ho.default_mem hd hk]
        have hstep : (Value.dict (rs ++ os ++ es)).step? (.key k) = some d :=
          (lookup_eq_some_iff_mem (nodup_keys_of_fits hdeclared hkeys hr ho he)).2 hmem
        rw [Option.bind_some, Value.reach?, hstep]
        rfl

end Fits

end TypedConfig.Schema

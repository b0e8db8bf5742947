import Mathlib.Data.List.Forall2
import TypedConfig.Proofs.Json.Rearranged
import TypedConfig.Proofs.Resolution.Equations
import TypedConfig.Proofs.Tree.Origins

/-!
# Trees with their children in another order

From rearranged documents come rearranged trees (`Node.rearranged_ofConfig`). They have the same leaves
(`Rearranged.mem_leaves_iff`), parts lead to rearranged nodes in them (`Rearranged.locate?`), and if
the leaves have rearranged values, the trees have (`Rearranged.value`).
-/

namespace TypedConfig

theorem Json.Rearranged.distinctKeys {j j' : Json} (h : j.Rearranged j') (hj : j.DistinctKeys) :
    j'.DistinctKeys := by
  induction h with
  | refl => exact hj
  | array hlength _ ih =>
    cases hj with
    | array hitems =>
      refine .array fun j' hj' => ?_
      obtain ⟨j, hj, hdistinct⟩ := exists_related_of_mem_right
        (r := fun j j' => j.DistinctKeys → j'.DistinctKeys) hlength ih hj'
      exact hdistinct (hitems j hj)
  | object hkeys _ ih =>
    cases hj with
    | object hnodup hentries =>
      refine .object (hkeys.nodup_iff.1 hnodup) fun e' he' => ?_
      obtain ⟨e, he, heq⟩ := List.mem_map.1 (hkeys.mem_iff.2 (List.mem_map_of_mem he'))
      exact ih e he e' he' heq (hentries e he)

/-- The values differ in the order of the keys of dicts only. -/
inductive Value.Rearranged : Value → Value → Prop
  | refl (v : Value) : Rearranged v v
  | list {items items' : List Value} (hlength : items.length = items'.length)
      (hitems : ∀ p ∈ items.zip items', Rearranged p.1 p.2) :
      Rearranged (.list items) (.list items')
  | dict {entries entries' : List (String × Value)}
      (hkeys : (entries.map Prod.fst).Perm (entries'.map Prod.fst))
      (hentries : ∀ e ∈ entries, ∀ e' ∈ entries', e.1 = e'.1 → Rearranged e.2 e'.2) :
      Rearranged (.dict entries) (.dict entries')

namespace Value

theorem Rearranged.kind_eq {v v' : Value} (h : Rearranged v v') : v.kind = v'.kind := by
  cases h <;> rfl

theorem Rearranged.child? {v v' w : Value} {key : String} (h : Rearranged v v')
    (hw : v.child? key = some w) : ∃ w', v'.child? key = some w' ∧ Rearranged w w' := by
  cases h with
  | refl => exact ⟨w, hw, .refl w⟩
  | list hlength hitems =>
    obtain ⟨i, hi, hw⟩ := Option.bind_eq_some_iff.1 hw
    rcases getElem?_related hlength hitems i with ⟨hnone, -⟩ | ⟨a, b, ha, hb, hr⟩
    · simp [hnone] at hw
    · cases ha.symm.trans hw
      exact ⟨b, by rw [Value.child?, hi, Option.bind_some, hb], hr⟩
  | dict hkeys hentries =>
    exact exists_lookup_related hkeys hentries hw

theorem Rearranged.descend? {v v' w : Value} {parts : List String} (h : Rearranged v v')
    (hw : v.descend? parts = some w) : ∃ w', v'.descend? parts = some w' ∧ Rearranged w w' := by
  induction parts generalizing v v' with
  | nil =>
    cases hw
    exact ⟨v', rfl, h⟩
  | cons part parts ih =>
    obtain ⟨c, hc, hw⟩ := Option.bind_eq_some_iff.1 hw
    obtain ⟨c', hc', hr⟩ := h.child? hc
    obtain ⟨w', hw', hr'⟩ := ih hr hw
    exact ⟨w', by rw [Value.descend?, hc', Option.bind_some, hw'], hr'⟩

end Value

namespace Node

/-- The trees differ in the order of the children of dicts only. -/
inductive Rearranged : Node → Node → Prop
  | leaf (l : Leaf) : Rearranged (leaf l) (leaf l)
  | list (place : Keypath) {children children' : List Node}
      (hlength : children.length = children'.length)
      (hitems : ∀ p ∈ children.zip children', Rearranged p.1 p.2) :
      Rearranged (list place children) (list place children')
  | dict (place : Keypath) {children children' : List (String × Node)}
      (hkeys : (children.map Prod.fst).Perm (children'.map Prod.fst))
      (hentries : ∀ c ∈ children, ∀ c' ∈ children', c.1 = c'.1 → Rearranged c.2 c'.2) :
      Rearranged (dict place children) (dict place children')

variable {n n' : Node} {σ τ : Assignment}

theorem Rearranged.mem_leaves_iff (h : n.Rearranged n') (l : Leaf) :
    l ∈ n.leaves ↔ l ∈ n'.leaves := by
  induction h with
  | leaf => rfl
  | list place hlength _ ih =>
    simp only [leaves_list, List.mem_flatMap]
    constructor
    · rintro ⟨c, hc, hl⟩
      obtain ⟨c', hc', hiff⟩ := exists_related_of_mem_left
        (r := fun c c' => l ∈ c.leaves ↔ l ∈ c'.leaves) hlength ih hc
      exact ⟨c', hc', hiff.1 hl⟩
    · rintro ⟨c', hc', hl⟩
      obtain ⟨c, hc, hiff⟩ := exists_related_of_mem_right
        (r := fun c c' => l ∈ c.leaves ↔ l ∈ c'.leaves) hlength ih hc'
      exact ⟨c, hc, hiff.2 hl⟩
  | dict place hkeys _ ih =>
    simp only [leaves_dict, List.mem_flatMap]
    constructor
    · rintro ⟨c, hc, hl⟩
      obtain ⟨c', hc', heq⟩ := List.mem_map.1 (hkeys.mem_iff.1 (List.mem_map_of_mem hc))
      exact ⟨c', hc', (ih c hc c' hc' heq.symm).1 hl⟩
    · rintro ⟨c', hc', hl⟩
      obtain ⟨c, hc, heq⟩ := List.mem_map.1 (hkeys.mem_iff.2 (List.mem_map_of_mem hc'))
      exact ⟨c, hc, (ih c hc c' hc' heq).2 hl⟩

theorem locate?_leaf (l : Leaf) (parts : List String) :
    (leaf l).locate? parts = some (leaf l, parts) := by
  cases parts with
  | nil => rw [Node.locate?]
  | cons => rw [Node.locate?]; simp

/-- Parts lead to rearranged nodes, with the same parts left over, or to nothing. -/
theorem Rearranged.locate? (h : n.Rearranged n') (parts : List String) :
    (n.locate? parts = none ∧ n'.locate? parts = none) ∨
      ∃ m m' rest, n.locate? parts = some (m, rest) ∧ n'.locate? parts = some (m', rest) ∧
        m.Rearranged m' := by
  induction parts generalizing n n' with
  | nil => exact .inr ⟨n, n', [], by rw [Node.locate?], by rw [Node.locate?], h⟩
  | cons part parts ih =>
    cases h with
    | leaf l => exact .inr ⟨_, _, _, locate?_leaf l _, locate?_leaf l _, .leaf l⟩
    | list place hlength hitems =>
      rw [Node.locate?, Node.locate?]
      cases Text.index? part with
      | none => exact .inl ⟨rfl, rfl⟩
      | some i =>
        simp only [Option.bind_some]
        rcases getElem?_related hlength hitems i with ⟨ha, hb⟩ | ⟨c, c', ha, hb, hr⟩
        · rw [ha, hb]
          exact .inl ⟨rfl, rfl⟩
        · rw [ha, hb]
          exact ih hr
    | dict place hkeys hentries =>
      rw [Node.locate?, Node.locate?]
      rcases lookup_related hkeys hentries part with ⟨ha, hb⟩ | ⟨c, c', ha, hb, hr⟩
      · rw [ha, hb]
        exact .inl ⟨rfl, rfl⟩
      · rw [ha, hb]
        exact ih hr

theorem Rearranged.leadsTo_iff (h : n.Rearranged n') (parts : List String) (l : Leaf) :
    n.LeadsTo parts l ↔ n'.LeadsTo parts l := by
  unfold LeadsTo
  rcases h.locate? parts with ⟨hm, hm'⟩ | ⟨m, m', rest, hm, hm', hr⟩
  · simp [hm, hm']
  · simp [hm, hm', hr.mem_leaves_iff l]

/-! ### Values -/

theorem Rearranged.value (h : n.Rearranged n') (hl : ∀ l ∈ n.leaves, (σ l).Rearranged (τ l)) :
    (n.value σ).Rearranged (n'.value τ) := by
  induction h with
  | leaf l => exact hl l (by simp)
  | list place hlength _ ih =>
    rw [Node.value, Node.value, itemValues_eq_map, itemValues_eq_map]
    refine .list (by simpa using hlength) fun p hp => ?_
    rw [List.zip_map, List.mem_map] at hp
    obtain ⟨⟨c, c'⟩, hmem, rfl⟩ := hp
    exact ih _ hmem fun l hc => hl l (mem_leaves_list (List.of_mem_zip hmem).1 hc)
  | dict place hkeys _ ih =>
    rw [Node.value, Node.value, entryValues_eq_map, entryValues_eq_map]
    refine .dict (by simpa [Function.comp_def] using hkeys) fun e he e' he' heq => ?_
    obtain ⟨c, hc, rfl⟩ := List.mem_map.1 he
    obtain ⟨c', hc', rfl⟩ := List.mem_map.1 he'
    exact ih c hc c' hc' heq fun l hcl => hl l (mem_leaves_dict hc hcl)

/-! ### Built trees -/

theorem forall₂_rearranged_ofAnyItems {place : Keypath} {js js' : List Json}
    (h : List.Forall₂ (fun j j' => ∀ place, (ofAny place j).Rearranged (ofAny place j')) js js')
    (position : Nat) :
    List.Forall₂ Rearranged (ofAnyItems place position js) (ofAnyItems place position js') := by
  induction h generalizing position with
  | nil => exact .nil
  | cons hj _ ih => exact .cons (hj _) (ih _)

theorem rearranged_list {place : Keypath} {children children' : List Node}
    (h : List.Forall₂ Rearranged children children') :
    (list place children).Rearranged (list place children') := by
  obtain ⟨hlength, hzip⟩ := List.forall₂_iff_zip.1 h
  exact .list place hlength fun _ hp => hzip hp

theorem rearranged_ofAny {j j' : Json} (hj : j.DistinctKeys) (h : j.Rearranged j')
    (place : Keypath) : (ofAny place j).Rearranged (ofAny place j') := by
  induction hj generalizing j' place with
  | null | bool | number | string =>
    cases h
    exact .leaf _
  | array _ ih =>
    obtain ⟨items', rfl, hlength, hzip⟩ := h.of_array
    rw [ofAny, ofAny]
    refine rearranged_list (forall₂_rearranged_ofAnyItems
      (List.forall₂_iff_zip.2 ⟨hlength, fun hmem place => ?_⟩) 0)
    exact ih _ (List.of_mem_zip hmem).1 (hzip _ hmem) place
  | object hnodup _ ih =>
    obtain ⟨entries', rfl, hkeys, hentries⟩ := h.of_object hnodup
    rw [ofAny, ofAny, ofAnyEntries_eq_map, ofAnyEntries_eq_map]
    refine .dict place (by simpa [Function.comp_def] using hkeys) fun c hc c' hc' heq => ?_
    obtain ⟨e, he, rfl⟩ := List.mem_map.1 hc
    obtain ⟨e', he', rfl⟩ := List.mem_map.1 hc'
    have heq : e.1 = e'.1 := heq
    rw [← heq]
    exact ih e he (hentries e he e' he' heq) _

/-- From a rearranged document the schema builds a rearranged tree. -/
def BuildsRearranged (schema : Schema) : Prop :=
  ∀ place raw raw' n, raw.DistinctKeys → raw.Rearranged raw' → build schema place raw = .ok n →
    ∃ n', build schema place raw' = .ok n' ∧ n.Rearranged n'

theorem rearranged_ofItems {element : Schema} (hi : BuildsRearranged element) {place : Keypath}
    {position : Nat} {js js' : List Json} {children : List Node} (hjs : ∀ j ∈ js, j.DistinctKeys)
    (h : List.Forall₂ Json.Rearranged js js')
    (hc : ofItems (fun p j => build element p j) place position js = .ok children) :
    ∃ children', ofItems (fun p j => build element p j) place position js' = .ok children' ∧
      List.Forall₂ Rearranged children children' := by
  induction h generalizing position children with
  | nil => exact ⟨[], rfl, by cases hc; exact .nil⟩
  | cons hj _ ih =>
    obtain ⟨child, hchild, hc⟩ := bind_eq_ok.1 hc
    obtain ⟨rest, hrest, hc⟩ := bind_eq_ok.1 hc
    cases hc
    obtain ⟨hd, hjs⟩ := List.forall_mem_cons.1 hjs
    obtain ⟨child', hchild', hr⟩ := hi _ _ _ child hd hj hchild
    obtain ⟨rest', hrest', hrs⟩ := ih hjs hrest
    refine ⟨child' :: rest', ?_, .cons hr hrs⟩
    rw [ofItems, hchild', hrest']
    rfl

/-- Children by their keys, each with a rearranged one on the other side. -/
structure Mirrors (keys keys' : List String) (children children' : List (String × Node)) :
    Prop where
  keys : children.map Prod.fst = keys
  keys' : children'.map Prod.fst = keys'
  partner : ∀ c ∈ children, ∃ c' ∈ children', c.1 = c'.1 ∧ c.2.Rearranged c'.2

namespace Mirrors

variable {keys keys' ks ks' : List String} {children children' cs cs' : List (String × Node)}

theorem nil : Mirrors [] [] [] [] := ⟨rfl, rfl, by simp⟩

theorem cons (h : Mirrors keys keys' children children') (k : String) (hn : n.Rearranged n') :
    Mirrors (k :: keys) (k :: keys') ((k, n) :: children) ((k, n') :: children') := by
  refine ⟨by simp [h.keys], by simp [h.keys'], List.forall_mem_cons.2 ⟨?_, fun c hc => ?_⟩⟩
  · exact ⟨_, List.mem_cons_self .., rfl, hn⟩
  · obtain ⟨c', hc', hp⟩ := h.partner c hc
    exact ⟨c', List.mem_cons_of_mem _ hc', hp⟩

theorem append (h : Mirrors keys keys' children children') (h' : Mirrors ks ks' cs cs') :
    Mirrors (keys ++ ks) (keys' ++ ks') (children ++ cs) (children' ++ cs') := by
  refine ⟨by simp [h.keys, h'.keys], by simp [h.keys', h'.keys'], fun c hc => ?_⟩
  rcases List.mem_append.1 hc with hc | hc
  · obtain ⟨c', hc', hp⟩ := h.partner c hc
    exact ⟨c', List.mem_append_left _ hc', hp⟩
  · obtain ⟨c', hc', hp⟩ := h'.partner c hc
    exact ⟨c', List.mem_append_right _ hc', hp⟩

/-- If no key comes twice, the partner is the only child with the key. -/
theorem rearranged (h : Mirrors keys keys' children children') (hnodup : keys'.Nodup)
    (hperm : keys.Perm keys') (place : Keypath) :
    (dict place children).Rearranged (dict place children') := by
  refine .dict place (by rwa [h.keys, h.keys']) fun c hc c' hc' heq => ?_
  obtain ⟨d, hd, hkey, hr⟩ := h.partner c hc
  have hdc : d = c' := List.inj_on_of_nodup_map (h.keys' ▸ hnodup) hd hc' (hkey.symm.trans heq)
  exact hdc ▸ hr

end Mirrors

section
variable {place : Keypath} {entries entries' : List (String × Json)}
  {children : List (String × Node)} (hd : ∀ e ∈ entries, e.2.DistinctKeys)
  (hkeys : (entries.map Prod.fst).Perm (entries'.map Prod.fst))
  (hentries : ∀ e ∈ entries, ∀ e' ∈ entries', e.1 = e'.1 → Json.Rearranged e.2 e'.2)
include hd hkeys hentries

theorem mirrors_buildRequired {required : List (String × Schema)}
    (hi : ∀ e ∈ required, BuildsRearranged e.2)
    (hc : buildRequired place entries required = .ok children) :
    ∃ children', buildRequired place entries' required = .ok children' ∧
      Mirrors (required.map Prod.fst) (required.map Prod.fst) children children' := by
  simp only [buildRequired_eq_ok_iff] at hc ⊢
  induction hc with
  | nil => exact ⟨[], .nil, .nil⟩
  | cons hchild _ ih =>
    obtain ⟨hi₁, hmore⟩ := List.forall_mem_cons.1 hi
    obtain ⟨rest', hrest', hm⟩ := ih hmore
    cases hchild with
    | given hj hn =>
      obtain ⟨j', hj', hr⟩ := exists_lookup_related hkeys hentries hj
      obtain ⟨n', hn', hrearranged⟩ := hi₁ _ _ j' _ (hd _ (mem_of_lookup hj)) hr hn
      exact ⟨_, .cons (.given hj' hn') hrest', hm.cons _ hrearranged⟩

theorem mirrors_buildOptional {optional : List (String × Schema × Option Value)}
    (hi : ∀ e ∈ optional, BuildsRearranged e.2.1)
    (hc : buildOptional place entries optional = .ok children) :
    ∃ children', buildOptional place entries' optional = .ok children' ∧
      Mirrors (optional.map Prod.fst) (optional.map Prod.fst) children children' := by
  simp only [buildOptional_eq_ok_iff] at hc ⊢
  induction hc with
  | nil => exact ⟨[], .nil, .nil⟩
  | cons hchild _ ih =>
    obtain ⟨hi₁, hmore⟩ := List.forall_mem_cons.1 hi
    obtain ⟨rest', hrest', hm⟩ := ih hmore
    cases hchild with
    | given hj hn =>
      obtain ⟨j', hj', hr⟩ := exists_lookup_related hkeys hentries hj
      obtain ⟨n', hn', hrearranged⟩ := hi₁ _ _ j' _ (hd _ (mem_of_lookup hj)) hr hn
      exact ⟨_, .cons (.given hj' hn') hrest', hm.cons _ hrearranged⟩
    | absent hj =>
      exact ⟨_, .cons (.absent (lookup_eq_none_of_perm hkeys hj)) hrest', hm.cons _ (.leaf _)⟩

end

theorem exists_forall₂ {α β : Type} {r : α → β → Prop} {as : List α} (h : ∀ a ∈ as, ∃ b, r a b) :
    ∃ bs, List.Forall₂ r as bs := by
  induction as with
  | nil => exact ⟨[], .nil⟩
  | cons a as ih =>
    obtain ⟨⟨b, hb⟩, h⟩ := List.forall_mem_cons.1 h
    obtain ⟨bs, hbs⟩ := ih h
    exact ⟨b :: bs, .cons hb hbs⟩

theorem mirrors_ofExtra {extra : Option Schema} (hi : ∀ s, extra = some s → BuildsRearranged s)
    {place : Keypath} {js js' : List (String × Json)} {children : List (String × Node)}
    (hd : ∀ e ∈ js, e.2.DistinctKeys) (hkeys : (js.map Prod.fst).Perm (js'.map Prod.fst))
    (hentries : ∀ e ∈ js, ∀ e' ∈ js', e.1 = e'.1 → Json.Rearranged e.2 e'.2)
    (hc : ofExtra (buildExtra extra) place js = .ok children) :
    ∃ children', ofExtra (buildExtra extra) place js' = .ok children' ∧
      Mirrors (js.map Prod.fst) (js'.map Prod.fst) children children' := by
  have hall := ofExtra_eq_ok_iff.1 hc
  obtain ⟨hlength, hzip⟩ := List.forall₂_iff_zip.1 hall
  -- what is built from an entry has a rearranged partner, built from the entry with its key
  have hpartner {e e' : String × Json} {c : String × Node} (he : e ∈ js) (he' : e' ∈ js')
      (heq : e.1 = e'.1) (hbuilt : ExtraChild place extra e c) :
      ∃ c', ExtraChild place extra e' c' ∧ c.2.Rearranged c'.2 := by
    obtain ⟨k', j'⟩ := e'
    cases hbuilt with
    | given hs hn =>
      cases heq
      obtain ⟨n', hn', hr⟩ := hi _ hs _ _ _ _ (hd _ he) (hentries _ he _ he' rfl) hn
      exact ⟨(_, n'), .given hs hn', hr⟩
  obtain ⟨children', hall'⟩ : ∃ children',
      List.Forall₂ (ExtraChild place extra) js' children' := by
    refine exists_forall₂ fun e' he' => ?_
    obtain ⟨e, he, heq⟩ := List.mem_map.1 (hkeys.mem_iff.2 (List.mem_map_of_mem he'))
    obtain ⟨c, -, hbuilt⟩ := exists_related_of_mem_left (r := ExtraChild _ _) hlength
      (fun p hp => hzip hp) he
    exact (hpartner he he' heq hbuilt).imp fun c' h => h.1
  have hsame (e c : _) : ExtraChild place extra e c → c.1 = e.1 := fun ⟨_, _⟩ => rfl
  refine ⟨children', ofExtra_eq_ok_iff.2 hall', map_fst_of_children hall hsame,
    map_fst_of_children hall' hsame, fun c hmem => ?_⟩
  obtain ⟨hlength', hzip'⟩ := List.forall₂_iff_zip.1 hall'
  obtain ⟨e, he, hbuilt⟩ := exists_of_mem_children hall hmem
  obtain ⟨e', he', heq⟩ := List.mem_map.1 (hkeys.mem_iff.1 (List.mem_map_of_mem he))
  obtain ⟨c', hbuilt', hr⟩ := hpartner he he' heq.symm hbuilt
  obtain ⟨d, hd, hbuiltd⟩ := exists_related_of_mem_left (r := ExtraChild _ _) hlength'
    (fun p hp => hzip' hp) he'
  cases hbuilt'.unique hbuiltd
  exact ⟨_, hd, (hsame _ _ hbuilt).trans (heq.symm.trans (hsame _ _ hbuilt').symm), hr⟩

theorem rearranged_of_standIn {raw : Json} {place : Keypath} {container : Container}
    {nullable : Bool} (h : standIn? place container nullable raw = some n) : n.Rearranged n := by
  obtain ⟨l, rfl⟩ := eq_leaf_of_standIn h
  exact .leaf _

theorem rearranged_of_ofScalar {raw : Json} {place : Keypath} {type : ScalarType} {nullable : Bool}
    (h : ofScalar place type nullable raw = .ok n) : n.Rearranged n := by
  obtain ⟨l, rfl, -⟩ := eq_leaf_of_ofScalar h
  exact .leaf _

theorem rearranged_build {schema : Schema} (hs : schema.DistinctKeys) :
    BuildsRearranged schema := by
  induction hs with
  | any =>
    rintro place raw raw' n hraw h hn
    cases hn
    exact ⟨_, rfl, rearranged_ofAny hraw h place⟩
  | scalar type nullable =>
    rintro place raw raw' n hraw h hn
    exact ⟨n, (ofScalar_rearranged h place type nullable).symm.trans hn, rearranged_of_ofScalar hn⟩
  | list _ ih =>
    rintro place raw raw' n hraw h hn
    simp only [build_list_eq_ok_iff, ← standIn?_rearranged h] at hn ⊢
    rcases hn with hstand | ⟨items, children, rfl, rfl, hc⟩
    · exact ⟨n, .inl hstand, rearranged_of_standIn hstand⟩
    · obtain ⟨items', rfl, hlength, hzip⟩ := h.of_array
      cases hraw with
      | array hitems =>
        obtain ⟨children', hc', hall⟩ := rearranged_ofItems ih hitems
          (List.forall₂_iff_zip.2 ⟨hlength, fun hp => hzip _ hp⟩) hc
        exact ⟨_, .inr ⟨items', children', rfl, rfl, hc'⟩, rearranged_list hall⟩
  | @dict required optional extra nullable nodup _ _ _ hrequired hoptional hextra =>
    rintro place raw raw' n hraw h hn
    simp only [build_dict_eq_ok_iff, ← standIn?_rearranged h] at hn ⊢
    rcases hn with hstand | ⟨entries, cs₁, cs₂, cs₃, rfl, rfl, h₁, h₂, h₃⟩
    · exact ⟨n, .inl hstand, rearranged_of_standIn hstand⟩
    · cases hraw with
      | object hnodup hd =>
        obtain ⟨entries', rfl, hkeys, hentries⟩ := h.of_object hnodup
        obtain ⟨cs₁', h₁', hm₁⟩ := mirrors_buildRequired hd hkeys hentries hrequired h₁
        obtain ⟨cs₂', h₂', hm₂⟩ := mirrors_buildOptional hd hkeys hentries hoptional h₂
        have hfilter := perm_map_fst_filter hkeys fun k =>
          !(required.map Prod.fst ++ optional.map Prod.fst).contains k
        obtain ⟨cs₃', h₃', hm₃⟩ := mirrors_ofExtra hextra
          (fun e he => hd e (List.mem_filter.1 he).1) hfilter
          (fun e he e' he' => hentries e (List.mem_filter.1 he).1 e' (List.mem_filter.1 he').1) h₃
        have hnodup' := nodup_declared_append nodup (hkeys.nodup_iff.1 hnodup)
        exact ⟨_, .inr ⟨entries', cs₁', cs₂', cs₃', rfl, rfl, h₁', h₂', h₃'⟩,
          ((hm₁.append hm₂).append hm₃).rearranged hnodup' (hfilter.append_left _) place⟩

theorem rearranged_ofConfig {schema : Schema} {raw raw' : Json} (hs : schema.DistinctKeys)
    (hraw : raw.DistinctKeys) (h : raw.Rearranged raw') (hn : ofConfig schema raw = .ok n) :
    ∃ n', ofConfig schema raw' = .ok n' ∧ n.Rearranged n' := by
  rw [ofConfig_eq_build hs hraw] at hn
  rw [ofConfig_eq_build hs (h.distinctKeys hraw)]
  exact rearranged_build hs .root raw raw' n hraw h hn

end Node
end TypedConfig

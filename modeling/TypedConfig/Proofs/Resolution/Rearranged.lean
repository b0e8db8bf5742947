import TypedConfig.Proofs.Resolution.Solution
import TypedConfig.Proofs.Steps
import TypedConfig.Proofs.Tree.Rearranged

/-!
# The order of keys under any schema

A free-form section keeps the order that its keys have in the configuration, and so does the text of
the section where a template splices it in: with another order of keys that text is another one
(`Resolver.exists_order_matters`). Nothing else depends on the order. Configurations that differ in
the order of keys resolve to values that differ in the order of keys only, if the containers that
are spliced into texts have their keys in the same order (`Resolver.resolve_rearranged`).

Between the two resolutions the leaves correspond (`Corresponds`). A container may come from an
alias, with its keys rearranged; where its order is kept, its value is the very same.
-/

namespace TypedConfig

/-- Parts lead to the same node in both trees, and so do the references of the aliases in it. -/
inductive KeepsOrder (s : Settings) (root root' : Node) : List String → Prop
  | intro {parts rest : List String} {node : Node}
      (h : root.locate? parts = some (node, rest)) (h' : root'.locate? parts = some (node, rest))
      (hrefs : ∀ l ∈ node.leaves, ∀ container name parts', l.preset = none →
        l.kind = .alias container name → s.target name = .internal parts' →
          KeepsOrder s root root' (parts' ++ rest)) : KeepsOrder s root root' parts

/-- What templates splice in has the same order in both trees. -/
def SplicesInOrder (s : Settings) (root root' : Node) : Prop :=
  ∀ l ∈ root.leaves, ∀ type, l.kind = .typed type → ∀ name ∈ l.names s.dialect,
    ∀ parts, s.target name = .internal parts → KeepsOrder s root root' parts

namespace Leaf

/-- In the value of the leaf, the order of what the parts lead to is kept. -/
def Keeps (s : Settings) (root root' : Node) (l : Leaf) (rest : List String) : Prop :=
  ∀ container name parts, l.preset = none → l.kind = .alias container name →
    s.target name = .internal parts → KeepsOrder s root root' (parts ++ rest)

/-- The values of a leaf in both trees are rearranged, and the same where order is kept. -/
structure Corresponds (s : Settings) (root root' : Node) (l : Leaf) (v v' : Value) : Prop where
  rearranged : v.Rearranged v'
  exact : ∀ rest, l.Keeps s root root' rest → v'.descend? rest = v.descend? rest

theorem Corresponds.refl {s : Settings} {root root' : Node} {l : Leaf} (v : Value) :
    l.Corresponds s root root' v v := ⟨.refl v, fun _ _ => rfl⟩

end Leaf

variable {s : Settings} {root root' : Node} {σ τ : Assignment} {l : Leaf} {v : Value}

/-- Parts are left over at leaves only. -/
theorem Node.eq_nil_or_leaf_of_locate? {n node : Node} {parts rest : List String}
    (h : n.locate? parts = some (node, rest)) : rest = [] ∨ ∃ l, node = .leaf l := by
  induction parts generalizing n with
  | nil =>
    rw [locate?] at h
    cases h
    exact .inl rfl
  | cons part parts ih =>
    cases n with
    | leaf l =>
      rw [locate?_leaf] at h
      cases h
      exact .inr ⟨l, rfl⟩
    | dict place children =>
      rw [locate?] at h
      split at h
      · exact ih h
      · cases h
    | list place children =>
      rw [locate?] at h
      split at h
      · exact ih h
      · cases h

theorem Node.locate?_append (n : Node) (parts more : List String) :
    n.locate? (parts ++ more) =
      (n.locate? parts).bind fun found => found.1.locate? (found.2 ++ more) := by
  induction parts generalizing n with
  | nil => simp [locate?]
  | cons part parts ih =>
    rw [List.cons_append]
    cases n with
    | leaf l => simp [locate?_leaf]
    | dict place children =>
      rw [locate?, locate?]
      split
      · exact ih _
      · rfl
    | list place children =>
      rw [locate?, locate?]
      split
      · exact ih _
      · rfl

theorem Node.LeadsTo.of_append {n : Node} {parts more : List String}
    (h : n.LeadsTo (parts ++ more) l) : n.LeadsTo parts l := by
  obtain ⟨node, rest, hloc, hl⟩ := h
  rw [locate?_append] at hloc
  obtain ⟨found, hfound, hloc⟩ := Option.bind_eq_some_iff.1 hloc
  exact ⟨found.1, found.2, hfound, mem_leaves_of_locate? hloc l hl⟩

/-- Where order is kept, parts lead to the same value in both. -/
theorem KeepsOrder.descend?_eq {parts : List String} (h : KeepsOrder s root root' parts)
    (hc : ∀ l, root.LeadsTo parts l → l.Corresponds s root root' (σ l) (τ l)) :
    (root'.value τ).descend? parts = (root.value σ).descend? parts := by
  cases h with
  | @intro _ rest node h h' hrefs =>
    have hleaf : ∀ l ∈ node.leaves, (τ l).descend? rest = (σ l).descend? rest := fun l hl =>
      (hc l ⟨node, rest, h, hl⟩).exact rest (hrefs l hl)
    rw [Node.descend?_value, Node.descend?_value, h, h']
    rcases Node.eq_nil_or_leaf_of_locate? h with rfl | ⟨l, rfl⟩
    · have hvalue : node.value τ = node.value σ :=
        Node.value_congr node fun l hl => Option.some.inj (hleaf l hl)
      simp only [Option.bind_some, hvalue]
    · exact hleaf l (by simp)

/-- Parts lead to rearranged values. -/
theorem Node.Rearranged.descend?_value (hroot : root.Rearranged root') {parts : List String}
    (hc : ∀ l, root.LeadsTo parts l → (σ l).Rearranged (τ l))
    (hv : (root.value σ).descend? parts = some v) :
    ∃ v', (root'.value τ).descend? parts = some v' ∧ v.Rearranged v' := by
  rw [Node.descend?_value] at hv ⊢
  rcases hroot.locate? parts with ⟨hm, -⟩ | ⟨m, m', rest, hm, hm', hr⟩
  · simp [hm] at hv
  · rw [hm, Option.bind_some] at hv
    rw [hm', Option.bind_some]
    exact (hr.value fun l hl => hc l ⟨m, rest, hm, hl⟩).descend? hv

/-- A leaf of both trees has corresponding values, if the leaves that it refers to have. -/
theorem Leaf.evaluate_rearranged (hroot : root.Rearranged root')
    (hsplices : SplicesInOrder s root root') (hl : l ∈ root.leaves)
    (hc : ∀ l', l.RefersTo s root l' → l'.Corresponds s root root' (σ l') (τ l'))
    (hv : l.evaluate s (root.value σ) = .ok v) :
    ∃ v', l.evaluate s (root'.value τ) = .ok v' ∧ l.Corresponds s root root' v v' := by
  cases hk : l.kind with
  | typed type =>
    refine ⟨v, ?_, .refl v⟩
    rw [← hv]
    exact evaluate_eq_of_names fun name hn parts ht =>
      (hsplices l hl type hk name hn parts ht).descend?_eq fun l' hl' =>
        hc l' ⟨name, hn, parts, ht, hl'⟩
  | «alias» container name =>
    cases hp : l.preset with
    | some w =>
      have hw : v = w := by simpa [evaluate, hp, eq_comm] using hv
      exact ⟨v, by simp [evaluate, hp, hw], .refl v⟩
    | none =>
      have hrefs : ∀ parts, s.target name = .internal parts → ∀ l', root.LeadsTo parts l' →
          l'.Corresponds s root root' (σ l') (τ l') := fun parts ht l' hl' =>
        hc l' ⟨name, by simp [names, hp, hk], parts, ht, hl'⟩
      simp only [evaluate, hp, hk, Settings.aliasValue_eq_ok_iff] at hv ⊢
      obtain ⟨hv, hkind⟩ := hv
      cases ht : s.target name with
      | external parts =>
        simp only [ht] at hv ⊢
        exact ⟨v, ⟨hv, hkind⟩, .refl v⟩
      | internal parts =>
        simp only [ht] at hv ⊢
        obtain ⟨v', hv', hr⟩ :=
          hroot.descend?_value (fun l' hl' => (hrefs parts ht l' hl').rearranged) hv
        refine ⟨v', ⟨hv', hr.kind_eq ▸ hkind⟩, hr, fun rest hkeeps => ?_⟩
        -- what is left over is followed in the value of the alias, and all of it from the root
        have hsame := (hkeeps container name parts hp hk ht).descend?_eq fun l' hl' =>
          hrefs parts ht l' hl'.of_append
        rwa [Value.descend?_append, Value.descend?_append, hv', hv] at hsame

theorem Node.Rearranged.refersTo_iff (hroot : root.Rearranged root') (l l' : Leaf) :
    l.RefersTo s root l' ↔ l.RefersTo s root' l' := by
  simp only [Leaf.RefersTo, hroot.leadsTo_iff]

namespace Resolution

variable {p : Progress}

/-- The leaves that are done have the values that correspond to a solution of the other tree. -/
theorem corresponds_of_settled (hroot : root.Rearranged root')
    (hsplices : SplicesInOrder s root root') (hσ : Solves s root σ) (h : p.Settled s root') :
    ∀ l ∈ root.leaves, l.Corresponds s root root' (σ l) (p.assignment σ l) := by
  intro l hl
  by_cases hd : p.Done l
  · have hacc := h.acc l ((hroot.mem_leaves_iff l).1 hl) hd
    clear hd
    induction hacc with
    | intro l _ ih =>
      cases hs : p.state l with
      | done w =>
        obtain ⟨w', hw', hcorresponds⟩ := Leaf.evaluate_rearranged hroot hsplices hl
          (fun l' href => ih l' ((hroot.refersTo_iff l l').1 href) href.mem_leaves) (hσ l hl)
        rw [evaluate_of_done h ((hroot.mem_leaves_iff l).1 hl) hs σ] at hw'
        cases hw'
        rwa [p.agrees_assignment σ l w hs]
      | _ =>
        simp only [Progress.assignment, hs]
        exact .refl _
  · cases hs : p.state l with
    | done w => exact absurd ⟨w, hs⟩ hd
    | _ =>
      simp only [Progress.assignment, hs]
      exact .refl _

end Resolution

namespace Resolver

open Resolution

variable {r : Resolver} {raw raw' : Json}

theorem resolve_rearranged (hs : r.schema.DistinctKeys) (hraw : raw.DistinctKeys)
    (hrearranged : raw.Rearranged raw')
    (hsplices : ∀ root root', Node.ofConfig r.schema raw = .ok root →
      Node.ofConfig r.schema raw' = .ok root' → SplicesInOrder r.settings root root')
    (h : r.resolve raw = .ok v) : ∃ v', r.resolve raw' = .ok v' ∧ v.Rearranged v' := by
  obtain ⟨hv, root, hb, σ, hσ, hacyclic, rfl⟩ := exists_solution h
  obtain ⟨root', hb', hroot⟩ := Node.rearranged_ofConfig hs hraw hrearranged hb
  have hsplices := hsplices root root' hb hb'
  rcases success_or_failure hv hb' with ⟨w, p, hrun, hp⟩ | ⟨e, p, hrun, hp⟩
  · refine ⟨w, by rw [resolve, hrun], ?_⟩
    rw [← hp.value _ (p.agrees_assignment σ)]
    exact hroot.value fun l hl =>
      (corresponds_of_settled hroot hsplices hσ hp.settled l hl).rearranged
  · rcases hp.cause with ⟨first, rest, hloop, -⟩ | ⟨l, hl, he⟩
    · have hfirst := (hroot.mem_leaves_iff first).2 (hloop.mem_leaves first (List.mem_cons_self ..))
      have hcycle := Relation.TransGen.mono (fun a b hab => (hroot.refersTo_iff a b).2 hab) _ _
        hloop.transGen
      exact absurd hcycle (hacyclic first hfirst)
    · have hl := (hroot.mem_leaves_iff l).2 hl
      obtain ⟨w, hw, -⟩ := Leaf.evaluate_rearranged hroot hsplices hl
        (fun l' href => corresponds_of_settled hroot hsplices hσ hp.settled l' href.mem_leaves)
        (hσ l hl)
      have he : l.evaluate r.settings (root'.value (p.assignment σ)) = .error e :=
        he _ (p.agrees_assignment σ)
      cases he.symm.trans hw

/-- A key of a section is spliced into a text, and the keys of the section are exchanged. -/
theorem exists_resolve_of_exchanged :
    ∃ v', (ofSchema .any).resolve (.object [("text", .string "$\x7bthis.section.a\x7d"),
        ("section", .object [("b", .bool true), ("a", .string "x")])]) = .ok v' ∧
      (Value.dict [("section", .dict [("a", .string "x"), ("b", .bool true)]),
        ("text", .string "x")]).Rearranged v' := by
  have hraw : (Json.object [("section", .object [("a", .string "x"), ("b", .bool true)]),
      ("text", .string "$\x7bthis.section.a\x7d")]).DistinctKeys :=
    .object (by simp) (by simp)
  have hrearranged : (Json.object [("section", .object [("a", .string "x"), ("b", .bool true)]),
      ("text", .string "$\x7bthis.section.a\x7d")]).Rearranged
      (.object [("text", .string "$\x7bthis.section.a\x7d"),
        ("section", .object [("b", .bool true), ("a", .string "x")])]) := by
    refine .object (by decide) ?_
    simp only [List.mem_cons, List.not_mem_nil, or_false]
    rintro e (rfl | rfl) e' (rfl | rfl) heq
    · exact absurd heq (by decide)
    · exact .of_perm (by decide) (.swap ..)
    · exact .refl _
    · exact absurd heq (by decide)
  refine resolve_rearranged (r := .ofSchema .any) .any hraw hrearranged
    (fun root root' hb hb' => ?_) (by cbv)
  -- of a free-form section, the tree is the one that is built
  cases (Node.ofConfig_eq_build .any hraw).symm.trans hb
  cases (Node.ofConfig_eq_build .any (hrearranged.distinctKeys hraw)).symm.trans hb'
  intro l hl type hk name hn parts ht
  have hl : l = ⟨(Keypath.root.key "section").key "a", .typed .any, .string "x", none⟩ ∨
      l = ⟨(Keypath.root.key "section").key "b", .typed .any, .bool true, none⟩ ∨
      l = ⟨Keypath.root.key "text", .typed .any, .string "$\x7bthis.section.a\x7d", none⟩ := by
    simpa [Node.ofAny, Node.ofAnyEntries, Node.openLeaf] using hl
  rcases hl with rfl | rfl | rfl
  · cbv at hn
    cases hn
  · cases hn
  · have hnames : Leaf.names .interpolation ⟨Keypath.root.key "text", .typed .any,
        .string "$\x7bthis.section.a\x7d", none⟩ = ["this.section.a"] := by cbv
    have hn : name ∈ ["this.section.a"] := hnames ▸ hn
    obtain rfl := List.mem_singleton.1 hn
    have htarget : Settings.initial.target "this.section.a" = .internal ["section", "a"] := by cbv
    cases htarget.symm.trans ht
    refine @KeepsOrder.intro _ _ _ _ []
      (.leaf ⟨(Keypath.root.key "section").key "a", .typed .any, .string "x", none⟩)
      (by cbv) (by cbv) ?_
    intro l hl container name parts _ hk
    obtain rfl := List.mem_singleton.1 hl
    cases hk

theorem not_rearranged_string {s t : String} (h : s ≠ t) :
    ¬ (Value.string s).Rearranged (.string t) := by
  rintro ⟨⟩
  exact h rfl

/-- The text of a free-form section follows the order of its keys. -/
theorem exists_order_matters :
    ∃ (raw raw' : Json) (v v' : Value), Schema.Accepted .any ∧ raw.DistinctKeys ∧
      raw.Rearranged raw' ∧ (ofSchema .any).resolve raw = .ok v ∧
      (ofSchema .any).resolve raw' = .ok v' ∧ ¬ v.Rearranged v' := by
  refine ⟨.object [("free", .object [("a", .bool true), ("b", .null)]),
      ("text", .string "$\x7bthis.free\x7d")],
    .object [("free", .object [("b", .null), ("a", .bool true)]),
      ("text", .string "$\x7bthis.free\x7d")],
    .dict [("free", .dict [("a", .bool true), ("b", .null)]),
      ("text", .string "\x7b\"a\":true,\"b\":null\x7d")],
    .dict [("free", .dict [("b", .null), ("a", .bool true)]),
      ("text", .string "\x7b\"b\":null,\"a\":true\x7d")],
    ⟨.object [("type", .string "any")], ?_, by cbv⟩, ?_, ?_, by cbv, by cbv, fun h => ?_⟩
  · exact .object (by simp) (by simp)
  · exact .object (by simp) (by simp)
  · refine .object (by decide) ?_
    simp only [List.mem_cons, List.not_mem_nil, or_false]
    rintro e (rfl | rfl) e' (rfl | rfl) heq
    · exact .of_perm (by decide) (.swap ..)
    · exact absurd heq (by decide)
    · exact absurd heq (by decide)
    · exact .refl _
  · obtain ⟨w, hw, hr⟩ := @Value.Rearranged.child? _ _ (.string _) "text" h rfl
    cases hw
    exact not_rearranged_string (by decide) hr

end Resolver
end TypedConfig

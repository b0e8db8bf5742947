import TypedConfig.Proofs.Json.AsValue
import TypedConfig.Proofs.Resolution.DottedName
import TypedConfig.Proofs.Resolution.Solution
import TypedConfig.Proofs.Steps

/-!
# References through aliases

Where a container is taken from a reference, a name that goes on from the container and one that
goes on from the reference lead to the same place (`Resolver.isGiven_through_alias`). Within the
configuration they stand for the same text. Among the variables the first one stands for the text of
a value, since the container is a value, the second one for the text of a document; there are doubles
for which these differ (`Resolver.not_isGiven_through_alias`).

`Leaf.IsGiven` says that a leaf is given a text for a name, both by the solution of the configuration
and whenever the leaf looks the name up in the course of its resolution.
-/

namespace TypedConfig

/-! ### Joined names -/

namespace Settings

variable {s : Settings} {name : String} {parts : List String}

theorem textOf_eq_ok_of_internal {world : Value} {place : Keypath} {text : String}
    (h : s.target name = .internal parts) :
    s.textOf world place name = .ok text ↔ ∃ w, world.descend? parts = some w ∧ w.text = text := by
  simp only [textOf, h, bind_eq_ok, foundOr_eq_ok_iff]
  exact exists_congr fun w => and_congr_right fun _ => ⟨Except.ok.inj, congrArg _⟩

theorem textOf_eq_ok_of_external {world : Value} {place : Keypath} {text : String}
    (h : s.target name = .external parts) :
    s.textOf world place name = .ok text ↔
      ∃ x, s.externals.descend? parts = some x ∧ x.scalarText = text := by
  simp only [textOf, h, bind_eq_ok, foundOr_eq_ok_iff]
  exact exists_congr fun x => and_congr_right fun _ => ⟨Except.ok.inj, congrArg _⟩

end Settings

/-! ### Names that a leaf is given a text for -/

theorem Template.exists_of_renderPieces_eq_ok {ε : Type} {f : String → Except ε String}
    {ps : List Piece} {out : String} (h : renderPieces f ps = .ok out) {body : List Char}
    (hbody : .reference body ∈ ps) : ∃ text, f (name body) = .ok text := by
  induction ps generalizing out with
  | nil => cases hbody
  | cons p ps ih =>
    obtain ⟨head, hhead, h⟩ := bind_eq_ok.1 h
    obtain ⟨tail, htail, -⟩ := bind_eq_ok.1 h
    rcases List.mem_cons.1 hbody with rfl | hbody
    · exact ⟨head, hhead⟩
    · exact ih htail hbody

namespace Leaf

variable {s : Settings} {root : Node} {l : Leaf} {name text : String}

/-- A leaf that is what it should be has a text for each name that it asks for. -/
theorem exists_textOf {world w : Value} (h : l.evaluate s world = .ok w)
    (hname : name ∈ l.names s.dialect) : ∃ text, s.textOf world l.place name = .ok text := by
  obtain ⟨place, kind, raw, preset⟩ := l
  cases preset with
  | some d => cases hname
  | none =>
    cases kind with
    | «alias» container name' =>
      obtain rfl : name = name' := by simpa [names] using hname
      obtain ⟨hfound, -⟩ := Settings.aliasValue_eq_ok_iff.1 h
      cases ht : s.target name with
      | internal parts =>
        rw [ht] at hfound
        exact ⟨_, (Settings.textOf_eq_ok_of_internal ht).2 ⟨w, hfound, rfl⟩⟩
      | external parts =>
        rw [ht] at hfound
        obtain ⟨x, hx, -⟩ := hfound
        exact ⟨_, (Settings.textOf_eq_ok_of_external ht).2 ⟨x, hx, rfl⟩⟩
    | typed type =>
      cases raw with
      | string template =>
        obtain ⟨rendered, hrender, -⟩ := bind_eq_ok.1 h
        obtain ⟨out, hpieces, -⟩ := bind_eq_ok.1 hrender
        obtain ⟨p, hp, hbody⟩ := List.mem_filterMap.1 hname
        cases p with
        | reference body =>
          cases hbody
          exact Template.exists_of_renderPieces_eq_ok hpieces hp
        | _ => cases hbody
      | _ => cases hname

/-- The leaf is given the text for the name: the value of the configuration has it there, and it is
what the name is looked up to at each moment of a resolution at which the leaf is the one that is
being resolved. -/
structure IsGiven (s : Settings) (root : Node) (v : Value) (l : Leaf) (name text : String) :
    Prop where
  final : s.textOf v l.place name = .ok text
  lookup : ∀ before depth beyond p, p.Sound s root (before ++ [l]) p.Done →
    p.unstarted root < depth → ∃ q, Resolution.lookup s root
      (fun n => n.assemble (Resolution.visitWithin s root beyond depth)) l.place name p = .ok text q

/-- While the leaf is being resolved, a lookup of a name that it asks for gives what the leaves that
the name leads to determine. -/
theorem computes_lookup (hroot : root.DistinctPlaces) (hname : name ∈ l.names s.dialect)
    (before : List Leaf) (depth : Nat) (beyond : Leaf → Resolution Value) :
    let resolveNode (n : Node) := n.assemble (Resolution.visitWithin s root beyond depth)
    let I (p : Progress) := p.Sound s root (before ++ [l]) p.Done ∧ p.unstarted root < depth
    Resolution.Computes I I (Resolution.Failure s root)
      (fun l' => ∃ parts, s.target name = .internal parts ∧ root.LeadsTo parts l')
      (Resolution.lookup s root resolveNode l.place name)
      (Resolution.lookup s root resolveNode l.place name)
      fun σ => s.textOf (root.value σ) l.place name := by
  refine .lookup (fun _ _ hp => ⟨hp.1.lookup, hp.2⟩) fun parts ht l' hl' => ?_
  have href : l.RefersTo s root l' := ⟨name, hname, parts, ht, hl'⟩
  exact Resolution.keeps_visitWithin hroot beyond depth (before ++ [l]) l' hl'.mem_leaves
    (by simpa using href)

/-- Where there is a solution, no lookup fails, and the leaves that are done have the values of the
solution. -/
theorem isGiven_of_textOf {σ : Assignment} (hroot : root.DistinctPlaces) (hσ : Solves s root σ)
    (hacyclic : Acyclic s root) (hname : name ∈ l.names s.dialect)
    (h : s.textOf (root.value σ) l.place name = .ok text) :
    l.IsGiven s root (root.value σ) name text := by
  refine ⟨h, fun before depth beyond p hp hdepth => ?_⟩
  have hends := computes_lookup hroot hname before depth beyond p ⟨hp, hdepth⟩
  have hdetermined {q : Progress} {given : Except Error String} (hq : q.Settled s root)
      (hdet : q.Determines (fun τ => s.textOf (root.value τ) l.place name) given) :
      given = .ok text := by
    have hworld : root.value (q.assignment σ) = root.value σ :=
      Node.value_congr root (Resolution.agrees_of_solves hq hσ)
    rw [← hdet _ (q.agrees_assignment σ), ← h, ← hworld]
  cases hrun : Resolution.lookup s root
      (fun n => n.assemble (Resolution.visitWithin s root beyond depth)) l.place name p with
  | ok given q =>
    obtain ⟨hq, -, -, hdet⟩ := hends.eq_ok hrun
    cases hdetermined hq.1.settled hdet
    exact ⟨q, rfl⟩
  | error e q =>
    rcases hends.eq_error hrun with hfailure | ⟨hq, -, hdet⟩
    · exact (hfailure.not_solves hσ hacyclic).elim
    · cases hdetermined (hq.elim (·.1.settled) (·.1.settled)) hdet

end Leaf

namespace Resolver

section
variable {r : Resolver} {raw : Json} {root : Node} {v : Value} {l a b : Leaf}
  {container : Container} {name slot path : String} {parts : List String}

/-- One leaf asks for a place in a container by way of a slot that takes the container from a
reference, the other one by way of the reference. If the reference leads into the configuration, both
are given the same text. If it leads to a variable, they are given the texts of the same document, as
a value and as it is. -/
theorem isGiven_through_alias (hb : Node.ofConfig r.schema raw = .ok root)
    (h : r.resolve raw = .ok v)
    (hpreset : l.preset = none) (hkind : l.kind = .alias container name)
    (hslot : r.settings.target slot = .internal parts)
    (hlocate : root.locate? parts = some (.leaf l, []))
    (hmem : a ∈ root.leaves) (hasks : slot ++ "." ++ path ∈ a.names r.settings.dialect)
    (hmem' : b ∈ root.leaves) (hasks' : name ++ "." ++ path ∈ b.names r.settings.dialect) :
    (∀ parts', r.settings.target name = .internal parts' →
      ∃ text, a.IsGiven r.settings root v (slot ++ "." ++ path) text ∧
        b.IsGiven r.settings root v (name ++ "." ++ path) text) ∧
    (∀ parts', r.settings.target name = .external parts' →
      ∃ x, r.settings.externals.descend? (parts' ++ Keypath.dottedParts path) = some x ∧
        a.IsGiven r.settings root v (slot ++ "." ++ path) (Value.ofJson x).text ∧
        b.IsGiven r.settings root v (name ++ "." ++ path) x.scalarText ∧
        (x.HasOneText → (Value.ofJson x).text = x.scalarText)) := by
  obtain ⟨-, root', hb', σ, hσ, hacyclic, rfl⟩ := exists_solution h
  cases hb.symm.trans hb'
  have hroot : root.DistinctPlaces := Node.distinctPlaces_ofConfig hb
  have hl : l ∈ root.leaves := Node.mem_leaves_of_locate? hlocate l (by simp)
  have hgiven {m : Leaf} {asked text : String} (hasks : asked ∈ m.names r.settings.dialect)
      (htext : r.settings.textOf (root.value σ) m.place asked = .ok text) :
      m.IsGiven r.settings root (root.value σ) asked text :=
    Leaf.isGiven_of_textOf hroot hσ hacyclic hasks htext
  -- the slot has the value of what the reference leads to
  have hslotValue (rest : List String) :
      (root.value σ).descend? (parts ++ rest) = (σ l).descend? rest := by
    rw [Value.descend?_append, Node.descend?_value, hlocate]
    rfl
  have hevaluate := hσ l hl
  simp only [Leaf.evaluate, hpreset, hkind, Settings.aliasValue_eq_ok_iff] at hevaluate
  obtain ⟨hreference, -⟩ := hevaluate
  -- the first leaf is given the text of a value within the container
  have htarget := Settings.target_append_of_internal hslot path
  obtain ⟨text, htext⟩ := Leaf.exists_textOf (hσ a hmem) hasks
  obtain ⟨w, hw, rfl⟩ := (Settings.textOf_eq_ok_of_internal htarget).1 htext
  rw [hslotValue] at hw
  refine ⟨fun parts' ht => ?internal, fun parts' ht => ?external⟩
  case internal =>
    rw [ht] at hreference
    have hfound : (root.value σ).descend? (parts' ++ Keypath.dottedParts path) = some w := by
      rw [Value.descend?_append, hreference]
      exact hw
    have htarget' := Settings.target_append_of_internal ht path
    exact ⟨w.text, hgiven hasks htext,
      hgiven hasks' ((Settings.textOf_eq_ok_of_internal htarget').2 ⟨w, hfound, rfl⟩)⟩
  case external =>
    rw [ht] at hreference
    obtain ⟨j, hj, hvalue⟩ := hreference
    have htarget' := Settings.target_append_of_external ht path
    obtain ⟨text', htext'⟩ := Leaf.exists_textOf (hσ b hmem') hasks'
    obtain ⟨x, hx, rfl⟩ := (Settings.textOf_eq_ok_of_external htarget').1 htext'
    -- the value of what is found in the document is what is found in its value
    have hw' : w = .ofJson x := by
      rw [Json.descend?_append, hj, Option.bind_some] at hx
      rw [← hvalue, Value.descend?_ofJson, hx, Option.map_some] at hw
      exact (Option.some.inj hw).symm
    subst hw'
    exact ⟨x, hx, hgiven hasks htext, hgiven hasks' htext', Value.text_ofJson⟩

end

/-! ### A box that is taken from a variable -/

namespace Boxed

/-- A dict that is taken from the limits among the variables. -/
def box : Leaf :=
  ⟨Keypath.root.key "box", .alias .dict "limits", .string "$\x7blimits\x7d", none⟩

/-- The size in the box. -/
def inside : Leaf :=
  ⟨Keypath.root.key "inside", .typed (.scalar .string), .string "$\x7bthis.box.size\x7d", none⟩

/-- The size in the limits. -/
def outside : Leaf :=
  ⟨Keypath.root.key "outside", .typed (.scalar .string), .string "$\x7blimits.size\x7d", none⟩

/-- The three of them. -/
def tree : Node :=
  .dict .root [("box", .leaf box), ("inside", .leaf inside), ("outside", .leaf outside)]

/-- The configuration that the tree is built from. -/
def config : Json := .object [("box", box.raw), ("inside", inside.raw), ("outside", outside.raw)]

/-- The resolver for the configuration, given the size. -/
def resolver (size : Json) : Resolver :=
  ⟨.dict [("box", .dict [] [] (some .any) false), ("inside", .scalar .string false),
    ("outside", .scalar .string false)] [] none false,
    { Settings.initial with externals := .object [("limits", .object [("size", size)])] }⟩

/-- What the configuration resolves to. -/
def value (size : Json) : Value :=
  .dict [("box", .dict [("size", .ofJson size)]), ("inside", .string (Value.ofJson size).text),
    ("outside", .string size.scalarText)]

variable (size : Json)

theorem resolve_config : (resolver size).resolve config = .ok (value size) := by
  have hresolve : (resolver size).resolve config = .ok (.dict
      [("box", .dict [("size", .ofJson size)]),
        ("inside", .string ((Value.ofJson size).text ++ "")),
        ("outside", .string (size.scalarText ++ ""))]) := by
    cbv
  rw [hresolve, String.append_empty, String.append_empty]
  rfl

theorem ofConfig_config : Node.ofConfig (resolver size).schema config = .ok tree := by cbv

theorem distinctKeys_schema : (resolver size).schema.DistinctKeys :=
  .dict (by simp) (by simp [Schema.DistinctKeys.scalar, Schema.DistinctKeys.dict,
    Schema.DistinctKeys.any]) (by simp) (by simp)

theorem distinctKeys_config : config.DistinctKeys :=
  .object (by simp) (by simp [box, inside, outside, Json.DistinctKeys.string])

theorem target_box : (resolver size).settings.target "this.box" = .internal ["box"] := by cbv

theorem target_limits : (resolver size).settings.target "limits" = .external ["limits"] := by cbv

theorem inside_asks : "this.box" ++ "." ++ "size" ∈ inside.names .interpolation := by
  have hnames : inside.names .interpolation = ["this.box" ++ "." ++ "size"] := by cbv
  rw [hnames]
  exact List.mem_singleton_self _

theorem outside_asks : "limits" ++ "." ++ "size" ∈ outside.names .interpolation := by
  have hnames : outside.names .interpolation = ["limits" ++ "." ++ "size"] := by cbv
  rw [hnames]
  exact List.mem_singleton_self _

theorem inside_mem : inside ∈ tree.leaves := by simp [tree]

theorem outside_mem : outside ∈ tree.leaves := by simp [tree]

/-- The text that the leaf inside is given is the one of the value. -/
theorem textOf_inside (place : Keypath) : (resolver size).settings.textOf (value size) place
    ("this.box" ++ "." ++ "size") = .ok (Value.ofJson size).text := by
  have htarget := Settings.target_append_of_internal (target_box size) "size"
  exact (Settings.textOf_eq_ok_of_internal htarget).2 ⟨.ofJson size, by cbv, rfl⟩

/-- The text that the leaf outside is given is the one of the document. -/
theorem textOf_outside (place : Keypath) : (resolver size).settings.textOf (value size) place
    ("limits" ++ "." ++ "size") = .ok size.scalarText := by
  have htarget := Settings.target_append_of_external (target_limits size) "size"
  exact (Settings.textOf_eq_ok_of_external htarget).2 ⟨size, by cbv, rfl⟩

end Boxed

open Boxed in
/-- A half is written in one way only. -/
theorem isGiven_through_box :
    let size : Json := .number (.double (Decimal.toFloat ⟨5, -1⟩) (by decide +kernel))
    let s := (resolver size).settings
    (resolver size).resolve config = .ok (value size) ∧ size.HasOneText ∧
      inside.IsGiven s tree (value size) ("this.box" ++ "." ++ "size") "0.5" ∧
      outside.IsGiven s tree (value size) ("limits" ++ "." ++ "size") "0.5" := by
  intro size s
  have hsize : size.HasOneText := Json.hasOneText_double Decimal.hasOneForm_half
  obtain ⟨x, hx, hinside, houtside, hsame⟩ := (isGiven_through_alias (ofConfig_config size)
    (resolve_config size) rfl rfl (target_box size) rfl
    inside_mem inside_asks outside_mem outside_asks).2 _ (target_limits size)
  have hfound : s.externals.descend? (["limits"] ++ Keypath.dottedParts "size") = some size := by
    cbv
  cases hfound.symm.trans hx
  have htext : size.scalarText = "0.5" := by decide +kernel
  rw [hsame hsize, htext] at hinside
  rw [htext] at houtside
  exact ⟨resolve_config size, hsize, hinside, houtside⟩

open Boxed in
/-- The size is ten to the sixteenth, which a value has all digits of, but a document does not. -/
theorem not_isGiven_through_alias :
    ∃ (r : Resolver) (raw : Json) (root : Node) (v : Value) (l a b : Leaf) (parts : List String),
      r.schema.DistinctKeys ∧ raw.DistinctKeys ∧ Node.ofConfig r.schema raw = .ok root ∧
      r.resolve raw = .ok v ∧ l.preset = none ∧ l.kind = .alias .dict "limits" ∧
      r.settings.target "this.box" = .internal parts ∧ root.locate? parts = some (.leaf l, []) ∧
      a ∈ root.leaves ∧ "this.box" ++ "." ++ "size" ∈ a.names r.settings.dialect ∧
      b ∈ root.leaves ∧ "limits" ++ "." ++ "size" ∈ b.names r.settings.dialect ∧
      ¬ ∃ text, a.IsGiven r.settings root v ("this.box" ++ "." ++ "size") text ∧
        b.IsGiven r.settings root v ("limits" ++ "." ++ "size") text := by
  have hfinite : (Decimal.toFloat ⟨1, 16⟩).isFinite = true := by decide +kernel
  have hpointed : Decimal.pointedText (Decimal.toFloat ⟨1, 16⟩) = "10000000000000000.0" := by
    decide +kernel
  have hjson : Decimal.jsonText (Decimal.toFloat ⟨1, 16⟩) = "1e+16" := by decide +kernel
  obtain ⟨size, hsize⟩ : ∃ size : Json, size = .number (.double _ hfinite) := ⟨_, rfl⟩
  have hinside : (Value.ofJson size).text = "10000000000000000.0" := by
    rw [hsize, ← hpointed]
    rfl
  have houtside : size.scalarText = "1e+16" := by
    rw [hsize, ← hjson]
    rfl
  refine ⟨resolver size, config, tree, value size, box, inside, outside, ["box"],
    distinctKeys_schema size, distinctKeys_config, ofConfig_config size, resolve_config size, rfl, rfl,
    target_box size, rfl, inside_mem, inside_asks, outside_mem, outside_asks, ?_⟩
  rintro ⟨text, ha, hb⟩
  have htext : text = "10000000000000000.0" := by
    rw [← hinside, ← Except.ok.inj ((textOf_inside size _).symm.trans ha.final)]
  have htext' : text = "1e+16" := by
    rw [← houtside, ← Except.ok.inj ((textOf_outside size _).symm.trans hb.final)]
  exact absurd (htext.symm.trans htext') (by decide)

end Resolver

end TypedConfig

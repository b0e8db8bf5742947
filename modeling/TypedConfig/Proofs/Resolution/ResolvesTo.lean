import TypedConfig.Proofs.Resolution.Equations

/-!
# What a leaf resolves to

`Leaf.ResolvesTo` gives a leaf its value without an order of visits: the leaves that it refers to
resolve first, and then the leaf is what it should be. Where references do not end there is no such
value, and there is never more than one (`Leaf.ResolvesTo.unique`).

`Settings.Reaches` says what a name reaches in a configuration as far as that is resolved, and
`Leaf.Explains` when a leaf is the reason of an error.
-/

namespace TypedConfig

/-- The leaf has the value, and so have all leaves that it depends on. -/
inductive Leaf.ResolvesTo (s : Settings) (root : Node) : Leaf → Value → Prop
  | intro {l : Leaf} {v : Value} (σ : Assignment)
      (hrefs : ∀ l', l.RefersTo s root l' → ResolvesTo s root l' (σ l'))
      (h : l.evaluate s (root.value σ) = .ok v) : ResolvesTo s root l v

theorem Leaf.ResolvesTo.unique {s : Settings} {root : Node} {l : Leaf} {v w : Value}
    (hv : l.ResolvesTo s root v) (hw : l.ResolvesTo s root w) : v = w := by
  induction hv generalizing w with
  | @intro l v σ _ hv ih =>
    obtain ⟨τ, hrefs, hw⟩ := hw
    have hsame : l.evaluate s (root.value σ) = l.evaluate s (root.value τ) :=
      evaluate_congr fun l' href => ih l' href (hrefs l' href)
    rw [hv, hw] at hsame
    exact Except.ok.inj hsame

/-- Following parts leads to a value, or to nothing, all leaves that they lead to being resolved. -/
def Node.Follows (s : Settings) (root : Node) (parts : List String) (v? : Option Value) : Prop :=
  ∃ σ : Assignment, (∀ l, root.LeadsTo parts l → l.ResolvesTo s root (σ l)) ∧
    (root.value σ).descend? parts = v?

/-- Following a name leads to a value, or to nothing: within the resolved configuration if the name
starts with the name that it has for itself, among the variables if not. -/
def Settings.Reaches (s : Settings) (root : Node) (name : String) (v? : Option Value) : Prop :=
  match s.target name with
  | .internal parts => root.Follows s parts v?
  | .external parts => (s.externals.descend? parts).map Value.ofJson = v?

theorem Settings.reaches_internal_iff {s : Settings} {root : Node} {name : String}
    {parts : List String} {v? : Option Value} (h : s.target name = .internal parts) :
    s.Reaches root name v? ↔ root.Follows s parts v? := by
  unfold Reaches
  rw [h]

theorem Settings.reaches_external_iff {s : Settings} {root : Node} {name : String}
    {parts : List String} {v? : Option Value} (h : s.target name = .external parts) :
    s.Reaches root name v? ↔ (s.externals.descend? parts).map Value.ofJson = v? := by
  unfold Reaches
  rw [h]

/-- The leaf is the reason of the error: a name that it asks for reaches nothing; what it is taken
from is not the container that it has to be; its template is malformed; or its parser fails, on the
template with the references written out or on the canonical text of another scalar. -/
inductive Leaf.Explains (s : Settings) (root : Node) (l : Leaf) : Error → Prop
  | unknownReference {name : String} (hname : name ∈ l.names s.dialect)
      (h : s.Reaches root name none) : Explains s root l (.unknownReference l.place name)
  | mismatch {container : Container} {name : String} {v : Value}
      (hkind : l.kind = .alias container name) (h : s.Reaches root name (some v))
      (hne : v.kind ≠ container.kind) :
      Explains s root l (.shape (.mismatch l.place container.kind v.kind))
  | template {type : LeafType} {template : String} {position : Nat} {fault : Template.Fault}
      (hkind : l.kind = .typed type) (hraw : l.raw = .string template)
      (h : (Template.scan s.dialect template).fault = some (position, fault)) :
      Explains s root l (.template l.place template position fault)
  | text {type : LeafType} {template substituted : String} {source : ParseError} {σ : Assignment}
      (hkind : l.kind = .typed type) (hraw : l.raw = .string template)
      (hrefs : ∀ l', l.RefersTo s root l' → l'.ResolvesTo s root (σ l'))
      (hrender : (Template.scan s.dialect template).render (s.textOf (root.value σ) l.place)
        (fun position fault => .error (.template l.place template position fault)) =
          .ok substituted)
      (hparse : s.parsers.get type substituted = .error source) :
      Explains s root l (.parse l.place template substituted source)
  | scalar {type : ScalarType} {source : ParseError} (hkind : l.kind = .typed (.scalar type))
      (hraw : ∀ template, l.raw ≠ .string template)
      (hparse : s.parsers.get (.scalar type) l.raw.scalarText = .error source) :
      Explains s root l (.parse l.place l.raw.scalarText l.raw.scalarText source)

end TypedConfig

import TypedConfig.Proofs.Except
import TypedConfig.Proofs.Lookup
import TypedConfig.Resolution.Engine

/-!
# The equations of a configuration

An assignment gives each leaf a value, and with it each node (`Node.value`). `Leaf.evaluate` says
what a leaf should be, given the value of the whole configuration: its value from the beginning,
its text with the references written out and parsed, or the container that it names. An assignment
solves the configuration if each leaf is what it should be. What a leaf should be depends on the
leaves that it refers to and on no others (`Leaf.evaluate_congr`), so that solutions agree where
references end (`Solves.eq_of_acc`). An error of an equation is about the leaf whose equation it is
(`Leaf.reports_of_evaluate`).
-/

namespace TypedConfig

/-- A value for each leaf. -/
abbrev Assignment := Leaf → Value

namespace Node

mutual

/-- The value of a node whose leaves have the values of an assignment. -/
def value (σ : Assignment) : Node → Value
  | dict _ children => .dict (entryValues σ children)
  | list _ children => .list (itemValues σ children)
  | leaf l => σ l

/-- The values of the entries of a dict. -/
def entryValues (σ : Assignment) : List (String × Node) → List (String × Value)
  | [] => []
  | (k, child) :: children => (k, value σ child) :: entryValues σ children

/-- The values of the items of a list. -/
def itemValues (σ : Assignment) : List Node → List Value
  | [] => []
  | child :: children => value σ child :: itemValues σ children

end

variable {σ τ : Assignment}

theorem entryValues_eq_map (children : List (String × Node)) :
    entryValues σ children = children.map fun c => (c.1, c.2.value σ) := by
  induction children with
  | nil => rfl
  | cons c children ih => simp [entryValues, ih]

theorem itemValues_eq_map (children : List Node) :
    itemValues σ children = children.map (value σ) := by
  induction children with
  | nil => rfl
  | cons c children ih => simp [itemValues, ih]

theorem lookup_entryValues (children : List (String × Node)) (key : String) :
    (entryValues σ children).lookup key = (children.lookup key).map (value σ) := by
  rw [entryValues_eq_map, lookup_map_snd]

theorem getElem?_itemValues (children : List Node) (i : Nat) :
    (itemValues σ children)[i]? = children[i]?.map (value σ) := by
  rw [itemValues_eq_map, List.getElem?_map]

/-- Following parts in the value of a node leads to where they lead in the node, and from there on
within the value. -/
theorem descend?_value (n : Node) (parts : List String) : (n.value σ).descend? parts =
    (n.locate? parts).bind fun found => (found.1.value σ).descend? found.2 := by
  induction parts generalizing n with
  | nil => simp [locate?, Value.descend?]
  | cons part parts ih =>
    cases n with
    | leaf l =>
      rw [locate?]
      · rfl
      · simp
    | dict place children =>
      rw [locate?, value, Value.descend?, Value.child?, lookup_entryValues]
      cases children.lookup part with
      | none => rfl
      | some child => exact ih child
    | list place children =>
      rw [locate?, value, Value.descend?, Value.child?]
      cases Text.index? part with
      | none => rfl
      | some i =>
        simp only [Option.bind_some, getElem?_itemValues]
        cases children[i]? with
        | none => rfl
        | some child => exact ih child

mutual

theorem value_congr : ∀ n : Node, (∀ l ∈ n.leaves, σ l = τ l) → n.value σ = n.value τ
  | leaf l, h => h l (by simp)
  | dict _ children, h => by
    rw [value, value, entryValues_congr children fun c hc l hl =>
      h l (mem_leaves_dict hc hl)]
  | list _ children, h => by
    rw [value, value, itemValues_congr children fun c hc l hl =>
      h l (mem_leaves_list hc hl)]

theorem entryValues_congr : ∀ children : List (String × Node),
    (∀ c ∈ children, ∀ l ∈ c.2.leaves, σ l = τ l) → entryValues σ children = entryValues τ children
  | [], _ => rfl
  | (k, child) :: children, h => by
    obtain ⟨h₁, h⟩ := List.forall_mem_cons.1 h
    rw [entryValues, entryValues, value_congr child h₁, entryValues_congr children h]

theorem itemValues_congr : ∀ children : List Node,
    (∀ c ∈ children, ∀ l ∈ c.leaves, σ l = τ l) → itemValues σ children = itemValues τ children
  | [], _ => rfl
  | child :: children, h => by
    obtain ⟨h₁, h⟩ := List.forall_mem_cons.1 h
    rw [itemValues, itemValues, value_congr child h₁, itemValues_congr children h]

end

end Node

/-! ### What a leaf should be -/

/-- What was found, or an error. -/
def foundOr {α : Type} (unknown : Error) : Option α → Except Error α
  | some a => .ok a
  | none => .error unknown

namespace Settings

/-- The text of a name that the leaf at a place asks for, in a configuration with a value. -/
def textOf (s : Settings) (world : Value) (place : Keypath) (name : String) : Except Error String :=
  let unknown := .unknownReference place name
  match s.target name with
  | .internal parts => do return (← foundOr unknown (world.descend? parts)).text
  | .external parts => do return (← foundOr unknown (s.externals.descend? parts)).scalarText

/-- The value of a text by the parser of a type. -/
def parsed (s : Settings) (place : Keypath) (type : LeafType) (raw : Json) (text : String) :
    Except Error Value :=
  match s.parsers.get type text with
  | .ok v => .ok v
  | .error e => .error (.parse place raw.scalarText text e)

/-- The value of a typed leaf: a text is rendered and parsed, another scalar is parsed from its
canonical text, or taken as it is if anything may stand there. -/
def typedValue (s : Settings) (world : Value) (place : Keypath) (type : LeafType) (raw : Json) :
    Except Error Value :=
  match raw, type with
  | .string template, type => do
    let text ← (Template.scan s.dialect template).render (s.textOf world place)
      fun position fault => .error (.template place template position fault)
    s.parsed place type raw text
  | raw, .any => .ok (Value.ofJson raw)
  | raw, type => s.parsed place type raw raw.scalarText

/-- The container that a reference names. -/
def aliasValue (s : Settings) (world : Value) (place : Keypath) (container : Container)
    (name : String) : Except Error Value := do
  let unknown := .unknownReference place name
  let v ← match s.target name with
    | .internal parts => foundOr unknown (world.descend? parts)
    | .external parts => Value.ofJson <$> foundOr unknown (s.externals.descend? parts)
  if v.kind = container.kind then return v
  else throw (.shape (.mismatch place container.kind v.kind))

end Settings

namespace Leaf

/-- What a leaf should be in a configuration with a value. -/
def evaluate (s : Settings) (world : Value) (l : Leaf) : Except Error Value :=
  match l.preset, l.kind with
  | some v, _ => .ok v
  | none, .typed type => s.typedValue world l.place type l.raw
  | none, .alias container name => s.aliasValue world l.place container name

/-- The names that a leaf asks for. -/
def names (dialect : Template.Dialect) (l : Leaf) : List String :=
  match l.preset, l.kind, l.raw with
  | none, .typed _, .string template => (Template.scan dialect template).names
  | none, .alias _ name, _ => [name]
  | _, _, _ => []

end Leaf

/-- Parts lead to a leaf: they end there, or stop there with some left over for its value, or end at
a container with the leaf in it. -/
def Node.LeadsTo (root : Node) (parts : List String) (l : Leaf) : Prop :=
  ∃ node rest, root.locate? parts = some (node, rest) ∧ l ∈ node.leaves

/-- A leaf asks for a name that leads to another leaf within the configuration. -/
def Leaf.RefersTo (s : Settings) (root : Node) (l l' : Leaf) : Prop :=
  ∃ name ∈ l.names s.dialect, ∃ parts, s.target name = .internal parts ∧ root.LeadsTo parts l'

theorem Leaf.RefersTo.mem_leaves {s : Settings} {root : Node} {l l' : Leaf}
    (h : l.RefersTo s root l') : l' ∈ root.leaves := by
  obtain ⟨name, -, parts, -, node, rest, hloc, hmem⟩ := h
  exact Node.mem_leaves_of_locate? hloc l' hmem

/-- Each leaf is what it should be. -/
def Solves (s : Settings) (root : Node) (σ : Assignment) : Prop :=
  ∀ l ∈ root.leaves, l.evaluate s (root.value σ) = .ok (σ l)

/-- No leaf refers to itself, be it through others. -/
def Acyclic (s : Settings) (root : Node) : Prop :=
  ∀ l ∈ root.leaves, ¬ Relation.TransGen (Leaf.RefersTo s root) l l

theorem foundOr_eq_ok_iff {α : Type} {unknown : Error} {a? : Option α} {a : α} :
    foundOr unknown a? = .ok a ↔ a? = some a := by
  cases a? <;> simp [foundOr]

/-- The container that a reference names, within the configuration or among the variables. -/
theorem Settings.aliasValue_eq_ok_iff {s : Settings} {world v : Value} {place : Keypath}
    {container : Container} {name : String} :
    s.aliasValue world place container name = .ok v ↔
      (match s.target name with
        | .internal parts => world.descend? parts = some v
        | .external parts => ∃ j, s.externals.descend? parts = some j ∧ Value.ofJson j = v) ∧
      v.kind = container.kind := by
  have hkind (w : Value) : (if w.kind = container.kind then .ok w
      else .error (.shape (.mismatch place container.kind w.kind))) = (.ok v : Except Error _) ↔
        w = v ∧ v.kind = container.kind := by
    split
    · next h =>
      constructor
      · rintro ⟨⟩
        exact ⟨rfl, h⟩
      · rintro ⟨rfl, -⟩
        rfl
    · next h =>
      constructor
      · rintro ⟨⟩
      · rintro ⟨rfl, hk⟩
        exact absurd hk h
  unfold aliasValue
  cases s.target name with
  | internal parts =>
    refine bind_eq_ok.trans ⟨?_, fun ⟨hv, hk⟩ => ⟨v, foundOr_eq_ok_iff.2 hv, (hkind v).2 ⟨rfl, hk⟩⟩⟩
    rintro ⟨w, hw, h⟩
    obtain ⟨rfl, hk⟩ := (hkind w).1 h
    exact ⟨foundOr_eq_ok_iff.1 hw, hk⟩
  | external parts =>
    refine bind_eq_ok.trans ⟨?_, ?_⟩
    · rintro ⟨w, hw, h⟩
      obtain ⟨rfl, hk⟩ := (hkind w).1 h
      cases hj : s.externals.descend? parts with
      | none => rw [hj] at hw; cases hw
      | some j => rw [hj] at hw; cases hw; exact ⟨⟨j, hj, rfl⟩, hk⟩
    · rintro ⟨⟨j, hj, rfl⟩, hk⟩
      exact ⟨_, by rw [foundOr_eq_ok_iff.2 hj]; rfl, (hkind _).2 ⟨rfl, hk⟩⟩

/-! ### What it depends on -/

namespace Template

theorem renderPieces_congr {m : Type → Type} [Monad m] {f g : String → m String}
    {ps : List Piece} (h : ∀ body, .reference body ∈ ps → f (name body) = g (name body)) :
    renderPieces f ps = renderPieces g ps := by
  induction ps with
  | nil => rfl
  | cons p ps ih =>
    have hp : p.render f = p.render g := by
      cases p with
      | reference body => exact h body (List.mem_cons_self ..)
      | _ => rfl
    rw [renderPieces, renderPieces, hp, ih fun body hb => h body (List.mem_cons_of_mem _ hb)]

theorem mem_names {t : Template} {body : List Char} (h : .reference body ∈ t.pieces) :
    name body ∈ t.names :=
  List.mem_filterMap.2 ⟨_, h, rfl⟩

theorem render_congr {m : Type → Type} [Monad m] {f g : String → m String}
    {malformed : Nat → Fault → m String} {t : Template} (h : ∀ name ∈ t.names, f name = g name) :
    t.render f malformed = t.render g malformed := by
  rw [render, render, renderPieces_congr fun body hb => h _ (mem_names hb)]

end Template

section
variable {s : Settings} {root : Node} {σ τ : Assignment}

/-- Parts mean the same under assignments that agree on the leaves that they lead to. -/
theorem descend?_congr {parts : List String} (h : ∀ l, root.LeadsTo parts l → σ l = τ l) :
    (root.value σ).descend? parts = (root.value τ).descend? parts := by
  rw [Node.descend?_value, Node.descend?_value]
  cases hloc : root.locate? parts with
  | none => rfl
  | some found =>
    obtain ⟨node, rest⟩ := found
    rw [Option.bind_some, Option.bind_some, Node.value_congr node fun l hl => h l ⟨node, rest, hloc, hl⟩]

theorem Settings.target_congr {s' : Settings} (hself : s.selfName = s'.selfName) (name : String) :
    s.target name = s'.target name := by
  rw [target, target, hself]

/-- What a leaf should be depends on what the names lead to that it asks for, and on the parser of
its type. -/
theorem Leaf.evaluate_eq_of_agree {s' : Settings} {world world' : Value} {l : Leaf}
    (hdialect : s.dialect = s'.dialect) (hself : s.selfName = s'.selfName)
    (hinternal : ∀ name ∈ l.names s.dialect, ∀ parts, s.target name = .internal parts →
      world.descend? parts = world'.descend? parts)
    (hexternal : ∀ name ∈ l.names s.dialect, ∀ parts, s.target name = .external parts →
      s.externals.descend? parts = s'.externals.descend? parts)
    (hparser : ∀ type, l.kind = .typed type → s.parsers.get type = s'.parsers.get type) :
    l.evaluate s world = l.evaluate s' world' := by
  cases hp : l.preset with
  | some v => simp only [evaluate, hp]
  | none =>
    cases hk : l.kind with
    | «alias» container name =>
      have hname : name ∈ l.names s.dialect := by simp [names, hp, hk]
      simp only [evaluate, hp, hk, Settings.aliasValue, ← Settings.target_congr hself]
      cases ht : s.target name with
      | external parts => simp only [hexternal name hname parts ht]
      | internal parts => simp only [hinternal name hname parts ht]
    | typed type =>
      have hget := hparser type hk
      simp only [evaluate, hp, hk]
      cases hr : l.raw with
      | string template =>
        have htext : ∀ name ∈ (Template.scan s.dialect template).names,
            s.textOf world l.place name = s'.textOf world' l.place name := by
          intro name hn
          have hname : name ∈ l.names s.dialect := by simpa [names, hp, hk, hr] using hn
          simp only [Settings.textOf, ← Settings.target_congr hself]
          cases ht : s.target name with
          | external parts => simp only [hexternal name hname parts ht]
          | internal parts => simp only [hinternal name hname parts ht]
        simp only [Settings.typedValue, Settings.parsed, ← hdialect, Template.render_congr htext,
          hget]
      | _ => cases type <;> simp only [Settings.typedValue, Settings.parsed, hget]

theorem Leaf.evaluate_eq_of_names {world world' : Value} {l : Leaf}
    (h : ∀ name ∈ l.names s.dialect, ∀ parts, s.target name = .internal parts →
      world.descend? parts = world'.descend? parts) :
    l.evaluate s world = l.evaluate s world' :=
  evaluate_eq_of_agree rfl rfl h (fun _ _ _ _ => rfl) fun _ _ => rfl

theorem Leaf.evaluate_congr {l : Leaf} (h : ∀ l', l.RefersTo s root l' → σ l' = τ l') :
    l.evaluate s (root.value σ) = l.evaluate s (root.value τ) :=
  evaluate_eq_of_names fun name hn parts ht =>
    descend?_congr fun l' hl' => h l' ⟨name, hn, parts, ht, hl'⟩

/-- Where references end, two solutions agree. -/
theorem Solves.eq_of_acc (hσ : Solves s root σ) (hτ : Solves s root τ) {l : Leaf}
    (hacc : Acc (fun b a => Leaf.RefersTo s root a b) l) (hl : l ∈ root.leaves) : σ l = τ l := by
  induction hacc with
  | intro l _ ih =>
    have heval : l.evaluate s (root.value σ) = l.evaluate s (root.value τ) :=
      Leaf.evaluate_congr fun l' h => ih l' h h.mem_leaves
    rw [hσ l hl, hτ l hl] at heval
    exact Except.ok.inj heval

end

/-! ### Errors -/

/-- The errors that there are in the equation of a leaf; each of them names the leaf. -/
inductive Leaf.Reports (l : Leaf) : Error → Prop
  | unknownReference (name : String) : Reports l (.unknownReference l.place name)
  | template (raw : String) (position : Nat) (fault : Template.Fault) :
    Reports l (.template l.place raw position fault)
  | parse (raw substituted : String) (source : ParseError) :
    Reports l (.parse l.place raw substituted source)
  | mismatch (expected found : Kind) : Reports l (.shape (.mismatch l.place expected found))

theorem Template.exists_of_renderPieces_eq_error {ε : Type} {f : String → Except ε String}
    {ps : List Piece} {e : ε} (h : renderPieces f ps = .error e) : ∃ name, f name = .error e := by
  induction ps with
  | nil => cases h
  | cons p ps ih =>
    rcases bind_eq_error.1 h with h | ⟨head, -, h⟩
    · cases p with
      | reference body => exact ⟨_, h⟩
      | _ => cases h
    · rcases bind_eq_error.1 h with h | ⟨tail, -, h⟩
      · exact ih h
      · cases h

section
variable {s : Settings} {world : Value} {e : Error}

theorem eq_of_foundOr_eq_error {α : Type} {unknown : Error} {a? : Option α}
    (h : foundOr unknown a? = .error e) : e = unknown := by
  cases a? with
  | none => cases h; rfl
  | some a => cases h

theorem Settings.eq_of_textOf_eq_error {place : Keypath} {name : String}
    (h : s.textOf world place name = .error e) : e = .unknownReference place name := by
  unfold textOf at h
  cases ht : s.target name <;> rw [ht] at h <;>
    rcases bind_eq_error.1 h with h | ⟨v, -, h⟩
  · exact eq_of_foundOr_eq_error h
  · cases h
  · exact eq_of_foundOr_eq_error h
  · cases h

variable {l : Leaf}

section
variable {place : Keypath} {type : LeafType} {raw : Json} {text : String}

theorem Settings.parsed_eq_ok_iff {v : Value} :
    s.parsed place type raw text = .ok v ↔ s.parsers.get type text = .ok v := by
  unfold parsed
  cases s.parsers.get type text <;> simp

theorem Settings.parsed_eq_error_iff : s.parsed place type raw text = .error e ↔
    ∃ source, s.parsers.get type text = .error source ∧
      .parse place raw.scalarText text source = e := by
  unfold parsed
  cases s.parsers.get type text <;> simp

end

theorem Leaf.reports_of_parsed {type : LeafType} {raw : Json} {text : String}
    (h : s.parsed l.place type raw text = .error e) : l.Reports e := by
  obtain ⟨source, -, rfl⟩ := Settings.parsed_eq_error_iff.1 h
  exact .parse ..

theorem Leaf.reports_of_typedValue {type : LeafType} {raw : Json}
    (h : s.typedValue world l.place type raw = .error e) : l.Reports e := by
  unfold Settings.typedValue at h
  split at h
  · rcases bind_eq_error.1 h with h | ⟨text, -, h⟩
    · rcases bind_eq_error.1 h with h | ⟨text, -, h⟩
      · obtain ⟨name, h⟩ := Template.exists_of_renderPieces_eq_error h
        obtain rfl := Settings.eq_of_textOf_eq_error h
        exact .unknownReference name
      · split at h
        · cases h
        · cases h
          exact .template ..
    · exact reports_of_parsed h
  · cases h
  · exact reports_of_parsed h

theorem Leaf.reports_of_aliasValue {container : Container} {name : String}
    (h : s.aliasValue world l.place container name = .error e) : l.Reports e := by
  have hkind {v : Value} (h : (if v.kind = container.kind then .ok v
      else .error (.shape (.mismatch l.place container.kind v.kind))) = (.error e : Except _ Value)) :
      l.Reports e := by
    split at h
    · cases h
    · cases h
      exact .mismatch ..
  unfold Settings.aliasValue at h
  cases ht : s.target name with
  | internal parts =>
    simp only [ht] at h
    rcases bind_eq_error.1 h with h | ⟨v, -, h⟩
    · obtain rfl := eq_of_foundOr_eq_error h
      exact .unknownReference name
    · exact hkind h
  | external parts =>
    simp only [ht] at h
    rcases bind_eq_error.1 h with h | ⟨v, -, h⟩
    · cases hf : s.externals.descend? parts with
      | none => rw [hf] at h; cases h; exact .unknownReference name
      | some j => rw [hf] at h; cases h
    · exact hkind h

theorem Leaf.reports_of_evaluate (h : l.evaluate s world = .error e) : l.Reports e := by
  unfold evaluate at h
  split at h
  · cases h
  · exact reports_of_typedValue h
  · exact reports_of_aliasValue h

end
end TypedConfig
